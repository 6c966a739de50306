import CSharpTidy.Fault
import CSharpTidy.SortedMap

namespace CSharpTidy

/-- A file to be overwritten, with what it is taken to hold. -/
structure FileChange where
  path : Path
  previous : Text
  text : Text
deriving DecidableEq, Repr

/-- Where committed texts go. Writing happens to all files or to none. -/
class Store (σ : Type) where
  read : σ → Path → Except Fault Text
  writeAll : σ → List FileChange → Except Fault Unit × σ

/-- A store in memory, which can be told to refuse writes. -/
structure MapStore where
  files : SortedMap Path Text := {}
  failWrites : Bool := false

namespace MapStore

def insert (store : MapStore) (path : Path) (text : Text) : MapStore :=
  { store with files := store.files.insert path text }

def read (store : MapStore) (path : Path) : Except Fault Text :=
  match store.files.get? path with
  | some text => .ok text
  | none => .error (.file (.other path.text))

def writeAll (store : MapStore) (writes : List FileChange) :
    Except Fault Unit × MapStore :=
  if store.failWrites then (.error (.file (.other "memory store configured to fail")), store)
  else (.ok (), writes.foldl (fun store write => store.insert write.path write.text) store)

instance : Store MapStore := ⟨read, writeAll⟩

end MapStore

end CSharpTidy
