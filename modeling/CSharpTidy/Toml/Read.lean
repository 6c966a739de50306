import CSharpTidy.Toml.Line
import CSharpTidy.Toml.Moment
import CSharpTidy.Toml.Number
import CSharpTidy.Toml.Quoted
import CSharpTidy.Toml.Table

/-!
Reading a file of settings. First its lines are told apart, and only then, line by line, what they
say is read: a fault in how marks and breaks stand is found before any other, wherever it is.
-/

namespace CSharpTidy

namespace Toml

inductive Refusal where
  /-- It has a key of too many parts. -/
  | deepKey
  /-- It is no file of settings, or one that says something else than settings. -/
  | unreadable
deriving DecidableEq, Repr

def Refusal.message : Refusal → String
  | .deepKey => "recursion limit\n"
  | .unreadable => "TOML parse error"

def orUnreadable {α : Type} : Option α → Except Refusal α
  | none => .error .unreadable
  | some value => .ok value

/-- The number of parts that a key may have. -/
def keyLimit : Nat := 80

def isBareKeyChar (c : Char) : Bool := c.isAlphanum || c == '_' || c == '-'

/-- Reads one part of a key. -/
def keyPart? : Text → Option String
  | [] => none
  | c :: rest =>
      if c = '"' || c = '\'' then lineString? c rest
      else if (c :: rest).all isBareKeyChar then some (String.ofList (c :: rest))
      else none

def WrittenKey.read (written : WrittenKey) : Except Refusal (List String) := do
  let parts ← orUnreadable (written.mapM keyPart?)
  if keyLimit < parts.length then .error .deepKey else .ok parts

def simple? : Text → Option Value
  | [] => none
  | c :: rest =>
      let text := c :: rest
      if c = '"' || c = '\'' then (string? c rest).map .string
      else if text = "true".toList then some (.boolean true)
      else if text = "false".toList then some (.boolean false)
      else if isNumber text || isMoment text then some .quantity
      else none

mutual

def WrittenValue.read : WrittenValue → Except Refusal Value
  | .scalar text => orUnreadable (simple? text)
  | .array items => (readItems items).map .array
  | .table entries => (readMembers [] entries).map (.table .inline)

def readItems : List WrittenValue → Except Refusal (List Value)
  | [] => .ok []
  | item :: items => do
      let item ← item.read
      return item :: (← readItems items)

/-- Reads the members of a table in addition to those read before. -/
def readMembers (table : Table) : List (WrittenKey × WrittenValue) → Except Refusal Table
  | [] => .ok table
  | (key, value) :: entries => do
      let keys ← WrittenKey.read key
      let value ← value.read
      readMembers (← orUnreadable (table.define? keys value)) entries

end

/-- What lines have said so far, and the header that the next settings stand under. -/
structure Sheet where
  table : Table := []
  header : List String := []
  /-- The item that is being filled, if the header is that of one. -/
  item : Option Table := none

namespace Sheet

/-- Ends what stands under a header. An item joins its list only now, so until here nothing is known
of whether there can be such a list. -/
def close (sheet : Sheet) : Except Refusal Table :=
  match sheet.item with
  | none => .ok sheet.table
  | some item => orUnreadable (sheet.table.addItem? sheet.header item)

/-- Adds what a line says. -/
def add (sheet : Sheet) : Line → Except Refusal Sheet
  | .header key => do
      let table ← sheet.close
      let header ← WrittenKey.read key
      return ⟨← orUnreadable (table.openTable? header), header, none⟩
  | .itemHeader key => do
      let table ← sheet.close
      return ⟨table, ← WrittenKey.read key, some []⟩
  | .setting key value => do
      let keys ← WrittenKey.read key
      let value ← value.read
      match sheet.item with
      | some item => return { sheet with item := ← orUnreadable (item.define? keys value) }
      | none =>
          let table ← orUnreadable (sheet.table.defineUnder? sheet.header keys value)
          return { sheet with table }

end Sheet

def read (text : Text) : Except Refusal Table := do
  let lines ← orUnreadable (linesOf? text)
  let sheet : Sheet ← lines.foldlM Sheet.add {}
  sheet.close

end Toml

end CSharpTidy
