import CSharpTidy.Toml.Token

/-!
The lines of a file of settings, as far as marks and breaks tell them apart. What stands between
the marks is kept as it is written, so that a name or a number that means nothing is still a part
of a line here.
-/

namespace CSharpTidy

namespace Toml

/-- The parts of a key as they are written. A part that is missing has no text. -/
abbrev WrittenKey := List Text

inductive WrittenValue where
  /-- A string with its quotes, or words. A value that is missing has no text. -/
  | scalar (text : Text)
  | array (items : List WrittenValue)
  | table (entries : List (WrittenKey × WrittenValue))
deriving Repr, Inhabited

inductive Line where
  | header (key : WrittenKey)
  /-- A header between doubled brackets, which begins a further table of a list. -/
  | itemHeader (key : WrittenKey)
  | setting (key : WrittenKey) (value : WrittenValue)
deriving Repr, Inhabited

/-- How many arrays and tables may stand open inside one another. -/
def nestingLimit : Nat := 80

def skipBlanks (tokens : List Token) : List Token := tokens.dropWhile Token.isBlanks

def skipSpace (tokens : List Token) : List Token := tokens.dropWhile Token.isSpace

/-- Reads the parts of a key, and the blanks between and after them. -/
def keyParts (isPartDue : Bool) : List Token → WrittenKey × List Token
  | .blanks _ :: rest => keyParts isPartDue rest
  | .dot :: rest =>
      let (parts, rest) := keyParts true rest
      (if isPartDue then [] :: parts else parts, rest)
  | token :: rest =>
      match isPartDue, token.part? with
      | true, some text =>
          let (parts, rest) := keyParts false rest
          (text :: parts, rest)
      | true, none => ([[]], token :: rest)
      | false, _ => ([], token :: rest)
  | [] => (if isPartDue then [[]] else [], [])

def key (tokens : List Token) : WrittenKey × List Token := keyParts true tokens

def words : List Token → Text × List Token
  | .word text :: rest =>
      let (more, rest) := words rest
      (text ++ more, rest)
  | .dot :: rest =>
      let (more, rest) := words rest
      ('.' :: more, rest)
  | .blanks space :: .word text :: rest =>
      let (more, rest) := words rest
      (space ++ text ++ more, rest)
  | rest => ([], rest)

mutual

/-- Reads a value, inside which so many arrays and tables may still be opened. The fuel bounds the
number of values read. -/
def value? : Nat → Nat → List Token → Option (WrittenValue × List Token)
  | 0, _, _ => none
  | fuel + 1, depth, tokens =>
      match tokens, depth with
      | .openBracket :: rest, depth + 1 =>
          (items? fuel depth rest).map fun (items, rest) => (.array items, rest)
      | .openBrace :: rest, depth + 1 =>
          (members? fuel depth rest).map fun (entries, rest) => (.table entries, rest)
      | .quoted text :: rest, _ => some (.scalar text, rest)
      | .word _ :: _, _ | .dot :: _, _ =>
          let (text, rest) := words tokens
          some (.scalar text, rest)
      | _, _ => none

/-- Reads the items of an array up to its closing bracket. -/
def items? : Nat → Nat → List Token → Option (List WrittenValue × List Token)
  | 0, _, _ => none
  | fuel + 1, depth, tokens =>
      match skipSpace tokens with
      | .closeBracket :: rest => some ([], rest)
      | rest => do
          let (item, rest) ← value? fuel depth rest
          match skipSpace rest with
          | .comma :: rest =>
              let (items, rest) ← items? fuel depth rest
              return (item :: items, rest)
          | .closeBracket :: rest => return ([item], rest)
          | _ => none

/-- Reads the members of a table up to its closing brace. The last one may lack its value. -/
def members? : Nat → Nat → List Token → Option (List (WrittenKey × WrittenValue) × List Token)
  | 0, _, _ => none
  | fuel + 1, depth, tokens =>
      match skipSpace tokens with
      | .closeBrace :: rest => some ([], rest)
      | rest =>
          let (key, rest) := key rest
          match skipSpace rest with
          | .closeBrace :: rest => some ([(key, .scalar [])], rest)
          | .equals :: rest =>
              match skipSpace rest with
              | .closeBrace :: rest => some ([(key, .scalar [])], rest)
              | rest => do
                  let (value, rest) ← value? fuel depth rest
                  match skipSpace rest with
                  | .comma :: rest =>
                      let (entries, rest) ← members? fuel depth rest
                      return ((key, value) :: entries, rest)
                  | .closeBrace :: rest => return ([(key, value)], rest)
                  | _ => none
          | _ => none

end

/-- Reads the key of a header and the brackets that close it. Where the last part of the key is
missing and no bracket stands in its place, the rest of the line is passed over. -/
def header? (close tokens : List Token) : Option (WrittenKey × List Token) :=
  let (key, rest) := key tokens
  if key.getLast? = some [] && rest.head? != some .closeBracket then
    some (key, rest.dropWhile (· != .lineBreak))
  else if close.isPrefixOf rest then some (key, rest.drop close.length)
  else none

/-- Reads what a line holds. A value may be missing at its end. -/
def line? : List Token → Option (Line × List Token)
  | .openBracket :: .openBracket :: rest =>
      (header? [.closeBracket, .closeBracket] rest).map fun (key, rest) => (.itemHeader key, rest)
  | .openBracket :: rest =>
      (header? [.closeBracket] rest).map fun (key, rest) => (.header key, rest)
  | tokens =>
      match key tokens with
      | (key, .equals :: rest) =>
          match skipBlanks rest with
          | [] => some (.setting key (.scalar []), [])
          | .lineBreak :: rest => some (.setting key (.scalar []), .lineBreak :: rest)
          | rest =>
              -- enough fuel, as every two calls inside one another take a token
              (value? (2 * rest.length + 2) nestingLimit rest).map fun (value, rest) =>
                (.setting key value, rest)
      | _ => none

/-- Reads the lines that are not empty. The fuel bounds their number. -/
def lines? : Nat → List Token → Option (List Line)
  | 0, _ => none
  | fuel + 1, tokens =>
      match skipSpace tokens with
      | [] => some []
      | tokens => do
          let (line, rest) ← line? tokens
          match skipBlanks rest with
          | [] => return [line]
          | .lineBreak :: rest => return line :: (← lines? fuel rest)
          | _ => none

/-- The mark that may stand at the beginning of an encoded text. -/
def byteOrderMark : Char := '\ufeff'

/-- The lines of a file of settings. -/
def linesOf? (text : Text) : Option (List Line) := do
  let tokens ← tokens? ((text.skip? [byteOrderMark]).getD text)
  -- enough fuel, as every line takes a token
  lines? (tokens.length + 1) tokens

end Toml

end CSharpTidy
