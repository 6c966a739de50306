import CSharpTidy.Fault
import CSharpTidy.SortedMap
import CSharpTidy.Text.Utf8

namespace CSharpTidy

/-- The names that lead from the root of a tree of files down to an entry. -/
abbrev Place := List Text

/-- Where one part of a path leads from a directory. -/
def Place.follow (place : Place) (segment : Text) : Place :=
  if Path.isTrivial segment then place
  else if segment = ['.', '.'] then place.dropLast
  else place ++ [segment]

inductive Contents where
  | text (text : Text)
  /-- Bytes that are no text. -/
  | binary (bytes : List UInt8)
deriving DecidableEq, Repr

def Contents.ofBytes (bytes : List UInt8) : Contents :=
  match Text.ofUtf8? bytes with
  | some decoded => .text decoded
  | none => .binary bytes

def Contents.toBytes : Contents → List UInt8
  | .text decoded => decoded.toUtf8
  | .binary bytes => bytes

inductive FileEntry where
  | file (contents : Contents) (mode : Nat)
  | directory
  /-- What can be read like a file, but never holds anything. -/
  | emptyDevice
deriving DecidableEq, Repr

/-- Files and directories by place as one user finds them, the directory in which relative paths
begin, and the directories in which this user cannot make new files. -/
structure FileTree where
  entries : SortedMap Place FileEntry := {}
  current : Place := []
  closed : List Place := []

namespace FileTree

/-- The mode of a file that is written anew. -/
def defaultMode : Nat := 0o644

def isReadable (mode : Nat) : Bool := mode &&& 0o400 != 0

def isWritable (mode : Nat) : Bool := mode &&& 0o200 != 0

/-- How many bytes the name of an entry may have. -/
def nameLimit : Nat := 255

/-- How many bytes a path may have. -/
def pathLimit : Nat := 4095

def entry? (tree : FileTree) (place : Place) : Option FileEntry :=
  if place = [] then some .directory else tree.entries.get? place

def insert (tree : FileTree) (place : Place) (entry : FileEntry) : FileTree :=
  { tree with entries := tree.entries.insert place entry }

/-- The place in which the parts of a path begin. -/
def origin (tree : FileTree) (path : Path) : Place := if path.isAbsolute then [] else tree.current

/-- The tree with a directory wherever the parts of a path lead, and the place of the last. -/
def makeWay (tree : FileTree) (start : Place) (segments : List Text) : FileTree × Place :=
  segments.foldl (fun (tree, place) segment =>
    let next := place.follow segment
    (tree.insert next .directory, next)) (tree, start)

def addDirectory (tree : FileTree) (path : Path) : FileTree :=
  (tree.makeWay (tree.origin path) path.segments).1

/-- The tree that has nothing but the directory in which relative paths begin, and those above. -/
def bare (current : Place) : FileTree :=
  addDirectory { current } (Path.ofSegments ([] :: current))

/-- The tree of a machine on which a user has a directory, but nothing in it yet. -/
def machine (current : Place) : FileTree :=
  let closed := ["/", "/bin", "/dev", "/etc", "/usr", "/var"].map Path.mk
  let tree := closed.foldl addDirectory (bare current)
  { tree.insert ["dev".toList, "null".toList] .emptyDevice with
    closed := closed.map fun path => path.segments.filter (· ≠ []) }

/-- The tree with a file, and with the directories that lead to it. -/
def addFile (tree : FileTree) (path : Path) (contents : Contents) (mode : Nat) : FileTree :=
  let (tree, place) := tree.makeWay (tree.origin path) path.segments.dropLast
  tree.insert (place.follow (path.segments.getLastD [])) (.file contents mode)

/-- Where one part of a path leads from a place, which has to be a directory. -/
def step (tree : FileTree) (place : Place) (segment : Text) : Except FileFault Place :=
  match tree.entry? place with
  | none => .error .missing
  | some .directory =>
      if nameLimit < Text.size segment then .error .nameTooLong else .ok (place.follow segment)
  | some _ => .error .notDirectory

/-- The place that a path names. The entry there may be missing, those on the way may not. -/
def locate (tree : FileTree) (path : Path) : Except FileFault Place :=
  if path.text.toList.contains '\x00' then .error .nullInPath
  else if pathLimit < path.text.utf8ByteSize then .error .nameTooLong
  else if path.text.isEmpty then .error .missing
  else path.segments.foldlM tree.step (tree.origin path)

def find (tree : FileTree) (path : Path) : Except FileFault FileEntry :=
  match tree.locate path with
  | .error fault => .error fault
  | .ok place =>
      match tree.entry? place with
      | some entry => .ok entry
      | none => .error .missing

def isPresent (tree : FileTree) (path : Path) : Bool := (tree.find path).isOk

def isFile (tree : FileTree) (path : Path) : Bool :=
  match tree.find path with
  | .ok (.file _ _) => true
  | _ => false

def read (tree : FileTree) (path : Path) : Except FileFault Text :=
  match tree.find path with
  | .error fault => .error fault
  | .ok .directory => .error .isDirectory
  | .ok .emptyDevice => .ok []
  | .ok (.file contents mode) =>
      if isReadable mode then
        match contents with
        | .text text => .ok text
        | .binary _ => .error .notUtf8
      else .error .denied

/-- The entries in a place and below, each with the names that lead to it from there. -/
def entriesBelow (tree : FileTree) (place : Place) : List (List Text × FileEntry) :=
  tree.entries.entries.filterMap fun (other, entry) =>
    if place.isPrefixOf other then some (other.drop place.length, entry) else none

/-- The files of a tree that are not in another one, or not with the same contents. -/
def newFiles (tree other : FileTree) : List (Path × Contents) :=
  tree.entries.entries.filterMap fun
    | (place, .file contents mode) =>
        if other.entries.get? place = some (.file contents mode) then none
        else some (Path.ofSegments ([] :: place), contents)
    | _ => none

end FileTree

end CSharpTidy
