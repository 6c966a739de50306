import CSharpTidy.Log.Event
import CSharpTidy.Settings.Load
import CSharpTidy.Text.Visible

namespace CSharpTidy

/-- A value as the log shows it, on one line. -/
inductive LogValue where
  | word (text : String)
  | quoted (text : String)
  | list (items : List LogValue)
  | set (items : List LogValue)
  | map (entries : List (LogValue × LogValue))
  | record (name : String) (fields : List (String × LogValue))

namespace LogValue

def ofBool (value : Bool) : LogValue := word (if value then "true" else "false")

def hexDigits (n : Nat) : List Char := Nat.toDigits 16 n

/-- A character as it stands inside quotes. One that does not show by itself is told by number. -/
def escape (c : Char) : List Char :=
  if c = '"' then ['\\', '"']
  else if c = '\\' then ['\\', '\\']
  else if c = '\n' then ['\\', 'n']
  else if c = '\r' then ['\\', 'r']
  else if c = '\t' then ['\\', 't']
  else if c = '\x00' then ['\\', '0']
  else if Text.isVisible c then [c]
  else ['\\', 'u', '\x7b'] ++ hexDigits c.toNat ++ ['\x7d']

def quote (text : String) : String := "\"" ++ String.ofList (text.toList.flatMap escape) ++ "\""

mutual

def render : LogValue → String
  | word text => text
  | quoted text => quote text
  | list items => "[" ++ ", ".intercalate (renderItems items) ++ "]"
  | set items => "\x7b" ++ ", ".intercalate (renderItems items) ++ "\x7d"
  | map entries => "\x7b" ++ ", ".intercalate (renderEntries entries) ++ "\x7d"
  | record name fields => name ++ " \x7b " ++ ", ".intercalate (renderFields fields) ++ " \x7d"

def renderItems : List LogValue → List String
  | [] => []
  | item :: items => render item :: renderItems items

def renderEntries : List (LogValue × LogValue) → List String
  | [] => []
  | (key, value) :: entries => (render key ++ ": " ++ render value) :: renderEntries entries

def renderFields : List (String × LogValue) → List String
  | [] => []
  | (name, value) :: fields => (name ++ ": " ++ render value) :: renderFields fields

end

def ofOrder (settings : OrderSettings) : LogValue :=
  record "OrderConfig" [("external_first", ofBool settings.externalFirst),
    ("external_prefixes", list (settings.externalPrefixes.map quoted))]

def ofFormat (settings : FormatSettings) : LogValue :=
  record "FormatOptions"
    [("space_after_control_keyword", ofBool settings.spaceAfterControlKeyword),
      ("trim_trailing_whitespace", ofBool settings.trimTrailingWhitespace),
      ("insert_final_newline", ofBool settings.insertFinalNewline)]

def ofSeverity : Severity → LogValue
  | .info => word "Info"
  | .warning => word "Warning"
  | .error => word "Error"

def ofRules (settings : RuleSettings) : LogValue :=
  record "LintConfig"
    [("disabled_rules", set (settings.disabledRules.keys.map quoted)),
      ("severity_overrides", map (settings.severityOverrides.entries.map fun (rule, severity) =>
        (quoted rule, ofSeverity severity))),
      ("strict", ofBool settings.strict), ("fail_on_rule_error", ofBool settings.failOnRuleError)]

def ofOutput (settings : OutputSettings) : LogValue :=
  record "OutputConfig"
    [("format", word (match settings.format with | .human => "Human" | .json => "Json")),
      ("verbose_rules", ofBool settings.verboseRules), ("color", ofBool settings.color)]

def ofSettings (settings : Settings) : LogValue :=
  record "Config" [("order", ofOrder settings.order), ("format", ofFormat settings.format),
    ("lint", ofRules settings.rules), ("output", ofOutput settings.output)]

end LogValue

namespace Log

def settings (outcome : Except Fault Settings) : List Event :=
  match outcome with
  | .error _ => []
  | .ok settings =>
      [⟨.debug, .settings, "configuration loaded",
        [("config", (LogValue.ofSettings settings).render)]⟩]

end Log

end CSharpTidy
