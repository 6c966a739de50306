import CSharpTidy.Token.Basic

namespace CSharpTidy

/-- A token that begins but never ends. -/
inductive ScanFault where
  | blockComment
  | string
  | rawString
  | verbatimString
  | character
deriving DecidableEq, Repr

namespace ScanFault

def message : ScanFault → String
  | blockComment => "unterminated block comment"
  | string => "unterminated string literal"
  | rawString => "unterminated raw string literal"
  | verbatimString => "unterminated verbatim string literal"
  | character => "unterminated character literal"

end ScanFault

structure ScanError where
  fault : ScanFault
  offset : Nat
deriving DecidableEq, Repr

namespace Scan

def isBlank (c : Char) : Bool :=
  c == ' ' || c == '\t' || c == '\n' || c == '\r' || c == '\x0b' || c == '\x0c'

/-- The characters of identifiers: ASCII letters, digits, `_` and everything outside ASCII. -/
def isIdentifierChar (c : Char) : Bool := c.isAlphanum || c == '_' || decide (0x80 ≤ c.val)

/-- How many characters a line has left, a carriage return at its end not counted. -/
def lineLength (text : Text) : Nat :=
  let line := text.takeWhile (· ≠ '\n')
  if line.getLast? = some '\r' then line.length - 1 else line.length

def commentLength? : Text → Option Nat
  | [] => none
  | '*' :: '/' :: _ => some 2
  | _ :: text => (commentLength? text).map (· + 1)

/-- How many characters there are up to and including the closing quote of a literal on one line.
A backslash takes the next character with it. -/
def quotedLength? (quote : Char) : Text → Option Nat
  | [] => none
  | ['\\'] => none
  | '\\' :: _ :: text => (quotedLength? quote text).map (· + 2)
  | c :: text =>
      if c = quote then some 1
      else if c = '\n' then none
      else (quotedLength? quote text).map (· + 1)

/-- How many characters there are up to and including the closing quote of a verbatim string, in
which a doubled quote stands for one. -/
def verbatimLength? : Text → Option Nat
  | [] => none
  | '"' :: '"' :: text => (verbatimLength? text).map (· + 2)
  | '"' :: _ => some 1
  | _ :: text => (verbatimLength? text).map (· + 1)

def quoteRun (text : Text) : Nat := (text.takeWhile (· == '"')).length

/-- How many characters there are up to and including the first run of at least `fence` quotes. -/
def fencedLength? (fence : Nat) : Text → Option Nat
  | [] => none
  | c :: text =>
      let run := quoteRun (c :: text)
      if fence ≤ run then some run else (fencedLength? fence text).map (· + 1)

/-- The length of the string literal that begins with the first quote of a text. Three or more
quotes open a raw string, which as many quotes close. -/
def stringLength (text : Text) : Except ScanFault Nat :=
  let fence := quoteRun text
  if 3 ≤ fence then
    match fencedLength? fence (text.drop fence) with
    | some length => .ok (fence + length)
    | none => .error .rawString
  else
    match quotedLength? '"' (text.drop 1) with
    | some length => .ok (1 + length)
    | none => .error .string

/-- Whether a text begins with the marks of a verbatim or interpolated string and its quote. -/
def opensMarkedString : Text → Bool
  | '@' :: '"' :: _ => true
  | '@' :: '$' :: '"' :: _ => true
  | '$' :: '@' :: '"' :: _ => true
  | '$' :: text => (text.dropWhile (· == '$')).head? == some '"'
  | _ => false

def markedStringLength (text : Text) : Except ScanFault Nat :=
  let marks := text.takeWhile fun c => c == '@' || c == '$'
  let rest := text.drop marks.length
  if marks.contains '@' then
    match verbatimLength? (rest.drop 1) with
    | some length => .ok (marks.length + 1 + length)
    | none => .error .verbatimString
  else
    match stringLength rest with
    | .ok length => .ok (marks.length + length)
    | .error fault => .error fault

/-- How many characters of a text continue a number. Two dots are a range and end it. -/
def numberLength : Text → Nat
  | [] => 0
  | '.' :: '.' :: _ => 0
  | c :: text => if c.isAlphanum || c == '_' || c == '.' then numberLength text + 1 else 0

def identifierLength (text : Text) : Nat := (text.takeWhile isIdentifierChar).length

/-- The kind of the token at the head of `c :: text`, and how many characters of `text` belong to
it. Only at the start of a line does `#` open a preprocessor line. -/
def head (lineStart : Bool) (c : Char) (text : Text) : Except ScanFault (TokenKind × Nat) :=
  if c == '#' && lineStart then .ok (.preprocessor, lineLength text)
  else if c == '/' && text.head? == some '/' then .ok (.lineComment, lineLength text)
  else if c == '/' && text.head? == some '*' then
    match commentLength? (text.drop 1) with
    | some length => .ok (.blockComment, 1 + length)
    | none => .error .blockComment
  else if c == '"' then
    match stringLength (c :: text) with
    | .ok length => .ok (.string, length - 1)
    | .error fault => .error fault
  else if opensMarkedString (c :: text) then
    match markedStringLength (c :: text) with
    | .ok length => .ok (.string, length - 1)
    | .error fault => .error fault
  else if c == '\'' then
    match quotedLength? '\'' text with
    | some length => .ok (.character, length)
    | none => .error .character
  else if c.isDigit then .ok (.number, numberLength text)
  else if isIdentifierChar c || (c == '@' && text.head?.any isIdentifierChar) then
    .ok (.identifier, identifierLength text)
  else if c == ':' && text.head? == some ':' then .ok (.doubleColon, 1)
  else .ok (.punctuation c, 0)

def tokens (offset : Nat) (lineStart : Bool) : Text → Except ScanError (List Token)
  | [] => .ok []
  | c :: text =>
      if isBlank c then tokens (offset + c.utf8Size) (lineStart || c == '\n') text
      else
        match head lineStart c text with
        | .error fault => .error ⟨fault, offset⟩
        | .ok (kind, length) =>
            let lexeme := c :: text.take length
            -- behind a token only a line feed starts a line
            match tokens (offset + Text.size lexeme) false (text.drop length) with
            | .error error => .error error
            | .ok rest => .ok (⟨kind, lexeme, offset⟩ :: rest)
termination_by text => text.length
decreasing_by
  all_goals simp only [List.length_cons, List.length_drop]
  all_goals omega

end Scan

/-- The byte-order mark. It may open a text and belongs to no token there. -/
def byteOrderMark : Char := '\ufeff'

/-- The tokens of a text, comments and preprocessor lines included. -/
def tokenize (text : Text) : Except ScanError (List Token) :=
  match text with
  | [] => .ok []
  | c :: rest =>
      if c = byteOrderMark then Scan.tokens c.utf8Size true rest else Scan.tokens 0 true text

end CSharpTidy
