import CSharpTidy.Token.Scan

/-!
# Scanning bytes

The scanner as it goes over the bytes of an encoded text, which knows of no characters. A byte of a
character outside ASCII is a part of identifiers and means nothing elsewhere. A backslash takes one byte
with it, be it the first of several.
-/

namespace CSharpTidy

namespace ByteScan

def isBlank (byte : UInt8) : Bool :=
  byte == ' '.toUInt8 || byte == '\t'.toUInt8 || byte == '\r'.toUInt8 || byte == 0x0b || byte == 0x0c

def isDigit (byte : UInt8) : Bool := decide (0x30 ≤ byte) && decide (byte ≤ 0x39)

def isAlphanumeric (byte : UInt8) : Bool :=
  isDigit byte || (decide (0x41 ≤ byte) && decide (byte ≤ 0x5a)) ||
    (decide (0x61 ≤ byte) && decide (byte ≤ 0x7a))

def isIdentifierByte (byte : UInt8) : Bool :=
  isAlphanumeric byte || byte == '_'.toUInt8 || decide (0x80 ≤ byte)

/-- A token at the head of some bytes, and how many of them are taken with it. -/
structure Head where
  kind : TokenKind
  length : Nat
  taken : Nat

def Head.whole (kind : TokenKind) (length : Nat) : Head := ⟨kind, length, length⟩

/-- A token up to the end of the line. A carriage return there is taken, but is not part of it. -/
def lineHead (kind : TokenKind) (bytes : List UInt8) : Head :=
  let line := bytes.takeWhile (· != '\n'.toUInt8)
  ⟨kind, if line.getLast? = some '\r'.toUInt8 then line.length - 1 else line.length, line.length⟩

def commentLength? : List UInt8 → Option Nat
  | [] => none
  | byte :: bytes =>
      if byte = '*'.toUInt8 ∧ bytes.head? = some '/'.toUInt8 then some 2
      else (commentLength? bytes).map (· + 1)

def quotedLength? (quote : UInt8) : List UInt8 → Option Nat
  | [] => none
  | byte :: bytes =>
      if byte = '\\'.toUInt8 then (quotedLength? quote (bytes.drop 1)).map (· + 2)
      else if byte = quote then some 1
      else if byte = '\n'.toUInt8 then none
      else (quotedLength? quote bytes).map (· + 1)
termination_by bytes => bytes.length

def verbatimLength? : List UInt8 → Option Nat
  | [] => none
  | byte :: bytes =>
      if byte = '"'.toUInt8 then
        if bytes.head? = some '"'.toUInt8 then (verbatimLength? (bytes.drop 1)).map (· + 2)
        else some 1
      else (verbatimLength? bytes).map (· + 1)
termination_by bytes => bytes.length

def quoteRun (bytes : List UInt8) : Nat := (bytes.takeWhile (· == '"'.toUInt8)).length

def fencedLength? (fence : Nat) : List UInt8 → Option Nat
  | [] => none
  | byte :: bytes =>
      let run := quoteRun (byte :: bytes)
      if fence ≤ run then some run else (fencedLength? fence bytes).map (· + 1)

def stringLength (bytes : List UInt8) : Except ScanFault Nat :=
  let fence := quoteRun bytes
  if 3 ≤ fence then
    match fencedLength? fence (bytes.drop fence) with
    | some length => .ok (fence + length)
    | none => .error .rawString
  else
    match quotedLength? '"'.toUInt8 (bytes.drop 1) with
    | some length => .ok (1 + length)
    | none => .error .string

def isMark (byte : UInt8) : Bool := byte == '@'.toUInt8 || byte == '$'.toUInt8

def opensMarkedString : List UInt8 → Bool
  | first :: second :: bytes =>
      if isMark first && second == '"'.toUInt8 then true
      else if first == '$'.toUInt8 && second == '$'.toUInt8 then
        (bytes.dropWhile (· == '$'.toUInt8)).head? == some '"'.toUInt8
      else isMark first && isMark second && first != second && bytes.head? == some '"'.toUInt8
  | _ => false

def markedStringLength (bytes : List UInt8) : Except ScanFault Nat :=
  let marks := bytes.takeWhile isMark
  let rest := bytes.drop marks.length
  if marks.contains '@'.toUInt8 then
    match verbatimLength? (rest.drop 1) with
    | some length => .ok (marks.length + 1 + length)
    | none => .error .verbatimString
  else
    match stringLength rest with
    | .ok length => .ok (marks.length + length)
    | .error fault => .error fault

def numberLength : List UInt8 → Nat
  | [] => 0
  | byte :: bytes =>
      if byte = '.'.toUInt8 ∧ bytes.head? = some '.'.toUInt8 then 0
      else if isAlphanumeric byte || byte == '_'.toUInt8 || byte == '.'.toUInt8 then
        numberLength bytes + 1
      else 0

def identifierLength (bytes : List UInt8) : Nat := (bytes.takeWhile isIdentifierByte).length

def head (lineStart : Bool) (byte : UInt8) (bytes : List UInt8) : Except ScanFault Head :=
  if byte == '#'.toUInt8 && lineStart then .ok (lineHead .preprocessor (byte :: bytes))
  else if byte == '/'.toUInt8 && bytes.head? == some '/'.toUInt8 then
    .ok (lineHead .lineComment (byte :: bytes))
  else if byte == '/'.toUInt8 && bytes.head? == some '*'.toUInt8 then
    match commentLength? (bytes.drop 1) with
    | some length => .ok (.whole .blockComment (2 + length))
    | none => .error .blockComment
  else if byte == '"'.toUInt8 then (stringLength (byte :: bytes)).map (Head.whole .string)
  else if opensMarkedString (byte :: bytes) then
    (markedStringLength (byte :: bytes)).map (Head.whole .string)
  else if byte == '\''.toUInt8 then
    match quotedLength? '\''.toUInt8 bytes with
    | some length => .ok (.whole .character (1 + length))
    | none => .error .character
  else if isDigit byte then .ok (.whole .number (1 + numberLength bytes))
  else if byte == '@'.toUInt8 && bytes.head?.any isIdentifierByte then
    .ok (.whole .identifier (1 + identifierLength bytes))
  else if isIdentifierByte byte then .ok (.whole .identifier (identifierLength (byte :: bytes)))
  else if byte == ':'.toUInt8 && bytes.head? == some ':'.toUInt8 then .ok (.whole .doubleColon 2)
  else .ok (.whole (.punctuation (Char.ofUInt8 byte)) 1)

def tokens (offset : Nat) (lineStart : Bool) :
    List UInt8 → Except ScanError (List (TokenKind × Span))
  | [] => .ok []
  | byte :: bytes =>
      if byte = '\n'.toUInt8 then tokens (offset + 1) true bytes
      else if isBlank byte then tokens (offset + 1) lineStart bytes
      else
        match head lineStart byte bytes with
        | .error fault => .error ⟨fault, offset⟩
        | .ok found =>
            match tokens (offset + found.taken) false (bytes.drop (found.taken - 1)) with
            | .error error => .error error
            | .ok rest => .ok ((found.kind, ⟨offset, offset + found.length⟩) :: rest)
termination_by bytes => bytes.length
decreasing_by
  all_goals simp only [List.length_cons, List.length_drop]
  all_goals omega

def byteOrderMark : List UInt8 := [0xef, 0xbb, 0xbf]

def tokenize (bytes : List UInt8) : Except ScanError (List (TokenKind × Span)) :=
  if byteOrderMark.isPrefixOf bytes then
    tokens byteOrderMark.length true (bytes.drop byteOrderMark.length)
  else tokens 0 true bytes

end ByteScan

end CSharpTidy
