import CSharpTidy.Format.Basic
import CSharpTidy.Rule.Settings
import CSharpTidy.OrderPolicy

namespace CSharpTidy

structure OrderSettings where
  /-- Whether directives under the prefixes sort before the others. -/
  externalFirst : Bool := false
  externalPrefixes : List String := OrderPolicy.defaultPrefixes.map String.ofList
deriving DecidableEq, Repr

inductive OutputFormat where
  | human
  | json
deriving DecidableEq, Repr

namespace OutputFormat

def render : OutputFormat → String
  | human => "human"
  | json => "json"

def ofName? : String → Option OutputFormat
  | "human" => some human
  | "json" => some json
  | _ => none

end OutputFormat

structure OutputSettings where
  format : OutputFormat := .human
  /-- Whether the description of a rule stands below what the rule found. -/
  verboseRules : Bool := false
  color : Bool := true
deriving DecidableEq, Repr

structure Settings where
  order : OrderSettings := {}
  format : FormatSettings := {}
  rules : RuleSettings := {}
  output : OutputSettings := {}
deriving DecidableEq, Repr

namespace Settings

def policy (settings : Settings) : OrderPolicy :=
  if settings.order.externalFirst then
    .externalFirst (settings.order.externalPrefixes.map String.toList)
  else .alphabetical

end Settings

end CSharpTidy
