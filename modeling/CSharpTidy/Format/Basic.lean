import CSharpTidy.Document
import CSharpTidy.Text.Edit

namespace CSharpTidy

structure FormatSettings where
  spaceAfterControlKeyword : Bool := true
  trimTrailingWhitespace : Bool := true
  insertFinalNewline : Bool := false
deriving DecidableEq, Repr

/-- Computes the edits that bring a document into shape. -/
abbrev Formatter := Document → FormatSettings → Except Fault (List Edit)

/-- The text after edits, unless they change nothing. -/
def changedText? (text : Text) (edits : List Edit) : Except Fault (Option Text) :=
  if edits.isEmpty then .ok none
  else
    match Edit.applyAll text edits with
    | .error fault => .error fault
    | .ok changed => .ok (if changed = text then none else some changed)

/-- The formatted text of a document, unless the document is formatted already. -/
def formattedText? (formatter : Formatter) (document : Document) (options : FormatSettings) :
    Except Fault (Option Text) :=
  match formatter document options with
  | .error fault => .error fault
  | .ok edits => changedText? document.text edits

end CSharpTidy
