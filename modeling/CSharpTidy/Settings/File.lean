import CSharpTidy.Settings.Layer
import CSharpTidy.Toml.Read

namespace CSharpTidy

namespace SettingsLayer

open Toml

/-- What a table says of some settings, or a list that names them all in order. A table that says
something else is refused. -/
def settings? (names : List String) : Value → Option (List (Option Value))
  | .table _ entries =>
      if entries.all fun entry => entry.1 ∈ names then
        some (names.map fun name => entries.lookup name)
      else none
  | .array items =>
      if names.length ≤ items.length then some ((items.take names.length).map some) else none
  | _ => none

/-- Reads a setting that may be absent. -/
def read? {α : Type} (decode : Value → Option α) : Option Value → Option (Option α)
  | none => some none
  | some value => (decode value).map some

def boolean? : Value → Option Bool
  | .boolean value => some value
  | _ => none

def string? : Value → Option String
  | .string value => some value
  | _ => none

def strings? : Value → Option (List String)
  | .array items => items.mapM string?
  | _ => none

/-- Reads a name, which may also be written as a table with an empty value under that name. -/
def name? : Value → Option String
  | .string value => some value
  | .table _ [(name, .table _ [])] => some name
  | .table _ [(name, .array [])] => some name
  | _ => none

def severities? : Value → Option (List (String × Severity))
  | .table _ entries => entries.mapM fun (rule, value) =>
      ((name? value).bind Severity.ofName?).map fun severity => (rule, severity)
  | _ => none

def order? (value : Value) : Option OrderLayer := do
  match ← settings? ["external_first", "external_prefixes"] value with
  | [first, prefixes] => return ⟨← read? boolean? first, ← read? strings? prefixes⟩
  | _ => none

def format? (value : Value) : Option FormatLayer := do
  match ← settings?
      ["space_after_control_keyword", "trim_trailing_whitespace", "insert_final_newline"] value with
  | [space, trim, newline] =>
      return ⟨← read? boolean? space, ← read? boolean? trim, ← read? boolean? newline⟩
  | _ => none

def rules? (value : Value) : Option RuleLayer := do
  match ← settings?
      ["disabled_rules", "severity_overrides", "strict", "fail_on_rule_error"] value with
  | [disabled, severities, strict, failing] =>
      return ⟨← read? strings? disabled, ← read? severities? severities, ← read? boolean? strict,
        ← read? boolean? failing⟩
  | _ => none

def output? (value : Value) : Option OutputLayer := do
  match ← settings? ["format", "verbose_rules", "color"] value with
  | [format, verbose, color] =>
      return ⟨← read? (fun value => (name? value).bind OutputFormat.ofName?) format,
        ← read? boolean? verbose, ← read? boolean? color⟩
  | _ => none

def ofTable? (table : Table) : Option SettingsLayer := do
  match ← settings? ["order", "format", "lint", "output"] (.table .headed table) with
  | [order, format, rules, output] =>
      return ⟨(← read? order? order).getD {}, (← read? format? format).getD {},
        (← read? rules? rules).getD {}, (← read? output? output).getD {}⟩
  | _ => none

def ofText (text : Text) : Except Refusal SettingsLayer := do
  orUnreadable (ofTable? (← Toml.read text))

end SettingsLayer

end CSharpTidy
