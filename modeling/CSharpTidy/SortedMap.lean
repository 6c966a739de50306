namespace CSharpTidy

/-- A map as the list of its entries in the order of their keys. Keys that compare equal are one
key, and the first spelling of it stays. -/
structure SortedMap (κ ν : Type) where
  entries : List (κ × ν) := []
deriving DecidableEq, Repr

namespace SortedMap

variable {κ ν : Type} [Ord κ]

instance : Inhabited (SortedMap κ ν) := ⟨⟨[]⟩⟩

def insertEntry (key : κ) (value : ν) : List (κ × ν) → List (κ × ν)
  | [] => [(key, value)]
  | (other, held) :: rest =>
      match compare key other with
      | .lt => (key, value) :: (other, held) :: rest
      | .eq => (other, value) :: rest
      | .gt => (other, held) :: insertEntry key value rest

def insert (map : SortedMap κ ν) (key : κ) (value : ν) : SortedMap κ ν :=
  ⟨insertEntry key value map.entries⟩

def get? (map : SortedMap κ ν) (key : κ) : Option ν :=
  (map.entries.find? fun entry => compare key entry.1 == .eq).map Prod.snd

def contains (map : SortedMap κ ν) (key : κ) : Bool := (map.get? key).isSome

def insertMany (map : SortedMap κ ν) (entries : List (κ × ν)) : SortedMap κ ν :=
  entries.foldl (fun map entry => map.insert entry.1 entry.2) map

def ofList (entries : List (κ × ν)) : SortedMap κ ν := insertMany ⟨[]⟩ entries

omit [Ord κ] in
def filter (test : κ → ν → Bool) (map : SortedMap κ ν) : SortedMap κ ν :=
  ⟨map.entries.filter fun entry => test entry.1 entry.2⟩

omit [Ord κ] in
def keys (map : SortedMap κ ν) : List κ := map.entries.map Prod.fst

omit [Ord κ] in
def size (map : SortedMap κ ν) : Nat := map.entries.length

omit [Ord κ] in
def isEmpty (map : SortedMap κ ν) : Bool := map.entries.isEmpty

end SortedMap

end CSharpTidy
