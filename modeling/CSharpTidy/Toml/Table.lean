namespace CSharpTidy

namespace Toml

/-- How a table came to be, which decides how it may be added to. -/
inductive TableKind where
  /-- By the header of a table inside it. -/
  | implied
  /-- By a dotted key. -/
  | dotted
  /-- By a header of its own. -/
  | headed
  /-- Between braces. -/
  | inline
deriving DecidableEq, Repr

inductive Value where
  | boolean (value : Bool)
  | string (value : String)
  /-- A number, a date or a time. No setting has such a value, so none is told from another. -/
  | quantity
  | array (items : List Value)
  | table (kind : TableKind) (entries : List (String × Value))
  /-- The tables that headers between doubled brackets began. -/
  | tables (items : List (List (String × Value)))
deriving Repr, Inhabited

/-- The entries of a table in the order in which they were written. -/
abbrev Table := List (String × Value)

namespace Table

def put (table : Table) (key : String) (value : Value) : Table :=
  if (table.lookup key).isSome then
    table.map fun entry => if entry.1 = key then (key, value) else entry
  else table ++ [(key, value)]

/-- Adds a value under a key of several parts. Such a key goes through tables that dotted keys or
the headers of inner tables made, but adds only to one that a dotted key made. -/
def define? (table : Table) (keys : List String) (value : Value) : Option Table :=
  match keys with
  | [] => none
  | [key] => if (table.lookup key).isSome then none else some (table.put key value)
  | key :: keys =>
      let isLast := keys.length = 1
      match table.lookup key with
      | none => (define? [] keys value).map fun inner => table.put key (.table .dotted inner)
      | some (.table kind inner) =>
          if kind = .dotted || (kind = .implied && !isLast) then
            (define? inner keys value).map fun inner => table.put key (.table kind inner)
          else none
      | some (.tables items) =>
          if isLast then none
          else
            (define? (items.getLastD []) keys value).map fun inner =>
              table.put key (.tables (items.dropLast ++ [inner]))
      | some _ => none

/-- Follows a header down to its last part, makes the tables that are missing on the way, and
changes what stands there. Of a list of tables the last one is gone into. -/
def alter? (table : Table) (keys : List String) (change : Option Value → Option Value) :
    Option Table :=
  match keys with
  | [] => none
  | [key] => (change (table.lookup key)).map (table.put key)
  | key :: keys =>
      match table.lookup key with
      | none => (alter? [] keys change).map fun inner => table.put key (.table .implied inner)
      | some (.table kind inner) =>
          if kind = .inline then none
          else (alter? inner keys change).map fun inner => table.put key (.table kind inner)
      | some (.tables items) =>
          (alter? (items.getLastD []) keys change).map fun inner =>
            table.put key (.tables (items.dropLast ++ [inner]))
      | some _ => none

/-- Makes the table that a header names. A header cannot name a table twice, nor one that was
written in another way. -/
def openTable? (table : Table) (header : List String) : Option Table :=
  table.alter? header fun
    | none => some (.table .headed [])
    | some (.table .implied inner) => some (.table .headed inner)
    | some _ => none

/-- Adds a table to the list that a header names, or begins that list. -/
def addItem? (table : Table) (header : List String) (item : Table) : Option Table :=
  table.alter? header fun
    | none => some (.tables [item])
    | some (.tables items) => some (.tables (items ++ [item]))
    | some _ => none

/-- Adds a value inside the table that a header named last. -/
def defineUnder? (table : Table) (header keys : List String) (value : Value) : Option Table :=
  if header = [] then table.define? keys value
  else
    table.alter? header fun
      | some (.table kind inner) => (define? inner keys value).map (.table kind)
      | _ => none

end Table

end Toml

end CSharpTidy
