import CSharpTidy.Settings.Basic

namespace CSharpTidy

structure OrderLayer where
  externalFirst : Option Bool := none
  externalPrefixes : Option (List String) := none
deriving DecidableEq, Repr

structure FormatLayer where
  spaceAfterControlKeyword : Option Bool := none
  trimTrailingWhitespace : Option Bool := none
  insertFinalNewline : Option Bool := none
deriving DecidableEq, Repr

structure RuleLayer where
  disabledRules : Option (List String) := none
  severityOverrides : Option (List (String × Severity)) := none
  strict : Option Bool := none
  failOnRuleError : Option Bool := none
deriving DecidableEq, Repr

structure OutputLayer where
  format : Option OutputFormat := none
  verboseRules : Option Bool := none
  color : Option Bool := none
deriving DecidableEq, Repr

/-- The settings that one layer of the configuration makes. -/
structure SettingsLayer where
  order : OrderLayer := {}
  format : FormatLayer := {}
  rules : RuleLayer := {}
  output : OutputLayer := {}
deriving DecidableEq, Repr

def firstOccurrences (names : List String) : List String :=
  (names.foldl (fun kept name => if name ∈ kept then kept else name :: kept) []).reverse

namespace OrderSettings

def merge (settings : OrderSettings) (layer : OrderLayer) : OrderSettings where
  externalFirst := layer.externalFirst.getD settings.externalFirst
  externalPrefixes := (layer.externalPrefixes.map firstOccurrences).getD settings.externalPrefixes

end OrderSettings

namespace FormatSettings

def merge (options : FormatSettings) (layer : FormatLayer) : FormatSettings where
  spaceAfterControlKeyword :=
    layer.spaceAfterControlKeyword.getD options.spaceAfterControlKeyword
  trimTrailingWhitespace := layer.trimTrailingWhitespace.getD options.trimTrailingWhitespace
  insertFinalNewline := layer.insertFinalNewline.getD options.insertFinalNewline

end FormatSettings

namespace RuleSettings

/-- Disabled rules and severities are added to those there are, all else is replaced. -/
def merge (settings : RuleSettings) (layer : RuleLayer) : RuleSettings where
  disabledRules := (settings.disableAll (layer.disabledRules.getD [])).disabledRules
  severityOverrides :=
    settings.severityOverrides.insertMany (layer.severityOverrides.getD [])
  strict := layer.strict.getD settings.strict
  failOnRuleError := layer.failOnRuleError.getD settings.failOnRuleError

end RuleSettings

namespace OutputSettings

def merge (settings : OutputSettings) (layer : OutputLayer) : OutputSettings where
  format := layer.format.getD settings.format
  verboseRules := layer.verboseRules.getD settings.verboseRules
  color := layer.color.getD settings.color

end OutputSettings

namespace Settings

def merge (settings : Settings) (layer : SettingsLayer) : Settings where
  order := settings.order.merge layer.order
  format := settings.format.merge layer.format
  rules := settings.rules.merge layer.rules
  output := settings.output.merge layer.output

end Settings

end CSharpTidy
