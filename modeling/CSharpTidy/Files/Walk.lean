import CSharpTidy.Files.Tree

namespace CSharpTidy

inductive EntryKind where
  | file
  | directory
  | other
deriving DecidableEq, Repr

def FileEntry.kind : FileEntry → EntryKind
  | file _ _ => .file
  | directory => .directory
  | emptyDevice => .other

/-- The path of what names lead to from a directory. -/
def Path.below (directory : Path) (names : List Text) : Path :=
  names.foldl (fun path name => path.join ⟨String.ofList name⟩) directory

/-- What a walk comes across. The names lead to it from where the walk began, so there are none where
it began. -/
structure WalkEntry where
  path : Path
  names : List Text
  kind : EntryKind
deriving DecidableEq, Repr

/-- A way to walk through a directory and all that is below. It is told what to enter, and tells what
it came across and what it could not open. -/
abbrev Walk := FileTree → (WalkEntry → Bool) → Path → List (Except FileFault WalkEntry)

namespace FileTree

/-- The directory on the way after the first `n` names. -/
def directoryAfter (directory : Path) (names : List Text) (n : Nat) : WalkEntry :=
  ⟨directory.below (names.take n), names.take n, .directory⟩

/-- Whether a walk gets to an entry. It has to enter the directories on the way and list the last of
them, which it cannot if that has too long a path. -/
def isReached (enters : WalkEntry → Bool) (directory : Path) (entry : WalkEntry) : Bool :=
  enters entry &&
    (List.range entry.names.length).all (fun n => enters (directoryAfter directory entry.names n)) &&
    decide ((directory.below entry.names.dropLast).text.utf8ByteSize ≤ pathLimit)

def walk : Walk := fun tree enters directory =>
  match tree.locate directory with
  | .error fault => [.error fault]
  | .ok place =>
      let found := (tree.entriesBelow place).map fun (names, entry) =>
        (⟨directory.below names, names, entry.kind⟩ : WalkEntry)
      (found.filter (isReached enters directory)).map .ok

end FileTree

end CSharpTidy
