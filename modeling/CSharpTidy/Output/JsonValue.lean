namespace CSharpTidy

/-- A JSON value. Members of an object stay in the order in which they are given. -/
inductive JsonValue where
  | null
  | bool (value : Bool)
  | number (value : Nat)
  | string (value : String)
  | array (items : List JsonValue)
  | object (members : List (String × JsonValue))

namespace JsonValue

def ofOption {α : Type} (encode : α → JsonValue) : Option α → JsonValue
  | none => null
  | some value => encode value

def ofList {α : Type} (encode : α → JsonValue) (items : List α) : JsonValue :=
  array (items.map encode)

def hexDigit (n : Nat) : Char := "0123456789abcdef".toList.getD n '0'

/-- A character as it stands inside a JSON string. Control characters are escaped, and everything
outside ASCII stands for itself. -/
def escape (c : Char) : List Char :=
  if c = '"' then ['\\', '"']
  else if c = '\\' then ['\\', '\\']
  else if c = '\n' then ['\\', 'n']
  else if c = '\r' then ['\\', 'r']
  else if c = '\t' then ['\\', 't']
  else if c = '\x08' then ['\\', 'b']
  else if c = '\x0c' then ['\\', 'f']
  else if c.toNat < 0x20 then
    ['\\', 'u', '0', '0', hexDigit (c.toNat / 16), hexDigit (c.toNat % 16)]
  else [c]

def quote (text : String) : String := "\"" ++ String.ofList (text.toList.flatMap escape) ++ "\""

/-- The start of a line that stands `depth` levels deep. -/
def margin (depth : Nat) : String := "\n" ++ String.ofList (List.replicate (2 * depth) ' ')

mutual

/-- A value over several lines, two blanks to a level. Empty arrays and objects stay on theirs. -/
def render (depth : Nat) : JsonValue → String
  | null => "null"
  | bool value => if value then "true" else "false"
  | number value => toString value
  | string value => quote value
  | array [] => "[]"
  | array (item :: items) =>
      "[" ++ margin (depth + 1) ++ render (depth + 1) item ++ renderItems (depth + 1) items ++
        margin depth ++ "]"
  | object [] => "\x7b\x7d"
  | object ((name, value) :: members) =>
      "\x7b" ++ margin (depth + 1) ++ quote name ++ ": " ++ render (depth + 1) value ++
        renderMembers (depth + 1) members ++ margin depth ++ "\x7d"

def renderItems (depth : Nat) : List JsonValue → String
  | [] => ""
  | item :: items => "," ++ margin depth ++ render depth item ++ renderItems depth items

def renderMembers (depth : Nat) : List (String × JsonValue) → String
  | [] => ""
  | (name, value) :: members =>
      "," ++ margin depth ++ quote name ++ ": " ++ render depth value ++ renderMembers depth members

end

end JsonValue

end CSharpTidy
