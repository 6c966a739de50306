import CSharpTidy.Format.Basic

namespace CSharpTidy

namespace Spacing

/-- The keywords before a clause in parentheses. -/
def spacedKeywords : List String :=
  ["if", "for", "foreach", "while", "switch", "catch", "using", "lock", "fixed"]

def isBlank (c : Char) : Bool := c == ' ' || c == '\t'

/-- The edit, if any, between a control keyword and the parenthesis after it. -/
def keywordEdit? (text : Text) (wantSpace : Bool) (keyword next : Token) : Option Edit :=
  if spacedKeywords.any keyword.isWord && next.isMark '(' then
    let gap := text.slice keyword.stop next.start
    if wantSpace then if gap.isEmpty then some (.insert keyword.stop [' ']) else none
    else if !gap.isEmpty && gap.all isBlank then some (.delete ⟨keyword.stop, next.start⟩)
    else none
  else none

def keywordEdits (text : Text) (wantSpace : Bool) : List Token → List Edit
  | [] => []
  | [_] => []
  | keyword :: next :: rest =>
      (keywordEdit? text wantSpace keyword next).toList ++
        keywordEdits text wantSpace (next :: rest)

def lineContent (line : Text) : Text := if line.getLast? = some '\r' then line.dropLast else line

def trimmed (content : Text) : Text := (content.reverse.dropWhile isBlank).reverse

/-- The edits that remove blanks at the ends of lines, the first of which starts at `offset`. Blanks
that begin inside a string stay. -/
def trailingEdits (strings : List Span) (offset : Nat) : List Text → List Edit
  | [] => []
  | line :: rest =>
      let content := lineContent line
      let start := offset + (trimmed content).size
      let blanks : Span := ⟨start, offset + content.size⟩
      let edits :=
        if blanks.isEmpty || strings.any (·.contains start) then [] else [.delete blanks]
      -- one more byte for the line feed
      edits ++ trailingEdits strings (offset + line.size + 1) rest

/-- Whether a carriage return stands before some line feed. -/
def hasCarriageReturns : Text → Bool
  | [] => false
  | '\r' :: '\n' :: _ => true
  | _ :: text => hasCarriageReturns text

/-- The edit that ends the last line, in the manner of the other lines. -/
def finalNewlineEdit? (text : Text) : Option Edit :=
  if text.isEmpty || text.getLast? == some '\n' then none
  else some (.insert text.size (if hasCarriageReturns text then ['\r', '\n'] else ['\n']))

/-- The edits for a text with the given tokens, in the order of their spans. -/
def edits (text : Text) (tokens : List Token) (options : FormatSettings) : List Edit :=
  let strings := (tokens.filter fun token => token.kind == .string).map Token.span
  let keyword := keywordEdits text options.spaceAfterControlKeyword tokens
  let trailing := if options.trimTrailingWhitespace then trailingEdits strings 0 text.lines else []
  let final := if options.insertFinalNewline then (finalNewlineEdit? text).toList else []
  Edit.sort (keyword ++ trailing ++ final)

end Spacing

/-- Sets the spaces after control keywords, at the ends of lines and at the end of the file, and
leaves everything else alone. -/
def spacingFormatter : Formatter := fun document options =>
  match document.root with
  | .error fault => .error fault
  | .ok _ =>
      match tokenize document.text with
      | .error error => .error (.treeUnavailable document.id error.fault.message)
      | .ok tokens => .ok (Spacing.edits document.text tokens options)

end CSharpTidy
