import CSharpTidy.Text.Basic

namespace CSharpTidy

/-- A file path as it was written, with `/` as separator. -/
structure Path where
  text : String
deriving DecidableEq, Repr, Inhabited

namespace Path

/-- A step of a path. The constructors stand in the order in which steps sort. -/
inductive Component where
  | root
  | current
  | parent
  | name (text : Text)
deriving DecidableEq, Repr

def Component.rank : Component → Nat
  | root => 0
  | current => 1
  | parent => 2
  | name _ => 3

instance : Ord Component where
  compare
    | .name first, .name second => compare first second
    | first, second => compare first.rank second.rank

/-- The parts between separators, empty parts included. -/
def segments (path : Path) : List Text := Text.split '/' path.text.toList

/-- Whether a part other than the first one names no step. -/
def isTrivial (segment : Text) : Bool := segment == [] || segment == ['.']

/-- The step that a part other than the first one names. -/
def stepOf? (segment : Text) : Option Component :=
  if isTrivial segment then none
  else if segment = ['.', '.'] then some .parent
  else some (.name segment)

/-- The steps of a path. Repeated separators and inner `.` parts name no step, but a leading `.`
does. -/
def components (path : Path) : List Component :=
  match path.segments with
  | [] => []
  | [] :: others => if others = [] then [] else .root :: others.filterMap stepOf?
  | first :: others =>
      (if first = ['.'] then [.current] else (stepOf? first).toList) ++ others.filterMap stepOf?

/-- Paths sort and agree by their steps, not by their spelling. -/
instance : Ord Path where
  compare first second := compare first.components second.components

def isAbsolute (path : Path) : Bool := path.text.toList.head? == some '/'

/-- `base/path`, or `path` alone if it is absolute. -/
def join (base path : Path) : Path :=
  if path.isAbsolute then path
  else if base.text.isEmpty || base.text.toList.getLast? == some '/' then ⟨base.text ++ path.text⟩
  else ⟨base.text ++ "/" ++ path.text⟩

/-- A path from its parts, where a sole empty part stands for the root. -/
def ofSegments : List Text → Path
  | [[]] => ⟨"/"⟩
  | segments => ⟨String.ofList (List.intercalate ['/'] segments)⟩

/-- The path without its last step. A root and an empty path have no parent. -/
def parent? (path : Path) : Option Path :=
  match path.segments with
  | [] => none
  | first :: others =>
      -- parts at the end that name no step go with the last one that does
      match others.reverse.dropWhile isTrivial with
      | [] => if first = [] then none else some ⟨""⟩
      | _ :: rest => some (ofSegments (first :: (rest.dropWhile isTrivial).reverse))

/-- The directory in which a path names an entry. -/
def directory (path : Path) : Path := path.parent?.getD ⟨"."⟩

def fileName? (path : Path) : Option Text :=
  match path.components.getLast? with
  | some (.name text) => some text
  | _ => none

/-- A file name cut at its last dot. A name whose only dot comes first is not cut. -/
def cutName (name : Text) : Text × Option Text :=
  let ending := (name.reverse.takeWhile (· ≠ '.')).reverse
  match (name.reverse.drop ending.length).drop 1 with
  | [] => (name, none)
  | stem => (stem.reverse, some ending)

def fileStem? (path : Path) : Option String :=
  path.fileName?.map fun name => String.ofList (cutName name).1

/-- The extension of the file name in small letters. -/
def extension? (path : Path) : Option String := do
  let name ← path.fileName?
  let ending ← (cutName name).2
  return String.ofList (Text.foldCase ending)

end Path

end CSharpTidy
