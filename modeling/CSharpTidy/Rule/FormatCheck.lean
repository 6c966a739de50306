import CSharpTidy.Format.Spacing
import CSharpTidy.Rule.Basic

namespace CSharpTidy

namespace FormatCheck

def ruleId : String := "format-check"

def ruleMessage : String := "Whitespace differs from formatted output"

def describe (edit : Edit) : String :=
  if edit.span.isEmpty then "Missing whitespace"
  else if edit.replacement.isEmpty then "Unexpected whitespace"
  else ruleMessage

/-- A formatter has nothing to change. -/
def rule (formatter : Formatter) (options : FormatSettings) : Rule where
  id := ruleId
  title := "Document must be formatted"
  message := ruleMessage
  description :=
    "Runs the formatter and reports every edit it would make: spacing after control-flow " ++
      "keywords, trailing whitespace and the final newline."
  category := .formatting
  severity := .warning
  canFix := true
  evaluate document :=
    match formatter document options with
    | .error fault => .error fault
    | .ok edits =>
        .ok (edits.map fun edit =>
          ⟨ruleId, .warning, describe edit, edit.span, document.id, .formatting⟩)
  fix document := formatter document options

end FormatCheck

end CSharpTidy
