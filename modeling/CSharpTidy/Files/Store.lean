import CSharpTidy.Files.Disk
import CSharpTidy.Files.Tree

namespace CSharpTidy

namespace FileTree

/-- The mode of a file that replaces none. -/
def privateMode : Nat := 0o600

/-- The mode that a new file at a path takes: that of the file it replaces, if there is one. -/
def modeFor (tree : FileTree) (path : Path) : Except FileFault Nat :=
  match tree.find path with
  | .ok (.file _ mode) => .ok mode
  | .ok _ => .ok privateMode
  | .error .missing => .ok privateMode
  | .error fault => .error fault

/-- The path under which the directory of a path is found. -/
def directoryOf (path : Path) : Path :=
  if path.directory.text.isEmpty then ⟨"."⟩ else path.directory

/-- A path from the root on for a new file in a directory. What the file is called does not matter,
only how long its name is. -/
def stagingPath (tree : FileTree) (directory : Path) : Path :=
  ((Path.ofSegments ([] :: tree.current)).join directory).join ⟨".tmp000000"⟩

def checkStaging (tree : FileTree) (directory : Path) : Except FileFault Unit := do
  let _ ← tree.locate (tree.stagingPath directory)
  if tree.closed.contains (← tree.locate directory) then .error .denied else .ok ()

def stage (tree : FileTree) (path : Path) (text : Text) : Except FileFault StagedFile × FileTree :=
  match tree.checkStaging (directoryOf path) with
  | .error fault => (.error fault, tree)
  | .ok _ => ((tree.modeFor path).map (StagedFile.mk text), tree)

/-- The place at which a path can become the name of a file. -/
def nameable (tree : FileTree) (path : Path) : Except FileFault Place :=
  match path.segments.reverse.dropWhile (· == []) with
  | [] => .error (if path.text.isEmpty then .missing else .busy)
  | last :: before =>
      -- the `.` stands for the name, so that what it is in has to be a directory
      match (before.reverse ++ [['.']]).foldlM tree.step (tree.origin path) with
      | .error fault => .error fault
      | .ok place =>
          if last = ['.'] || last = ['.', '.'] then .error .busy
          else if path.segments.getLast? = some [] then .error .notDirectory
          else if tree.entry? (place ++ [last]) = some .directory then .error .isDirectory
          else .ok (place ++ [last])

def replace (tree : FileTree) (staged : StagedFile) (path : Path) :
    Except FileFault Unit × FileTree :=
  match tree.nameable path with
  | .error fault => (.error fault, tree)
  | .ok place => (.ok (), tree.insert place (.file (.text staged.text) staged.mode))

def restore (tree : FileTree) (path : Path) (text : Text) : Except FileFault Unit × FileTree :=
  match tree.locate path with
  | .error fault => (.error fault, tree)
  | .ok place =>
      match tree.entry? place with
      | some (.file _ mode) =>
          if isWritable mode then (.ok (), tree.insert place (.file (.text text) mode))
          else (.error .denied, tree)
      | some .directory => (.error .isDirectory, tree)
      | some .emptyDevice => (.ok (), tree)
      | none => (.error .missing, tree)

instance : Disk FileTree := ⟨stage, replace, restore⟩

instance : Store FileTree where
  read tree path := (tree.read path).mapError Fault.file
  writeAll tree writes :=
    match Disk.writeAll tree writes with
    | (.error fault, tree) => (.error (.file fault), tree)
    | (.ok _, tree) => (.ok (), tree)

end FileTree

end CSharpTidy
