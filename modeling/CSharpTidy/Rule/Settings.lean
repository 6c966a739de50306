import CSharpTidy.Rule.Finding
import CSharpTidy.SortedMap

namespace CSharpTidy

structure RuleSettings where
  /-- The rules to leave out, sorted and without repetition. -/
  disabledRules : SortedMap String Unit := {}
  severityOverrides : SortedMap String Severity := {}
  /-- Whether warnings count as errors. -/
  strict : Bool := false
  /-- Whether a rule that fails on some document ends the whole run. -/
  failOnRuleError : Bool := false
deriving DecidableEq, Repr

namespace RuleSettings

def disable (settings : RuleSettings) (rule : String) : RuleSettings :=
  { settings with disabledRules := settings.disabledRules.insert rule () }

def disableAll (settings : RuleSettings) (rules : List String) : RuleSettings :=
  rules.foldl disable settings

def setSeverity (settings : RuleSettings) (rule : String) (severity : Severity) : RuleSettings :=
  { settings with severityOverrides := settings.severityOverrides.insert rule severity }

def isDisabled (settings : RuleSettings) (rule : String) : Bool :=
  settings.disabledRules.contains rule

/-- The severity of what a rule finds, overrides first and strictness second. -/
def severityFor (settings : RuleSettings) (rule : String) (severity : Severity) : Severity :=
  let severity := (settings.severityOverrides.get? rule).getD severity
  if settings.strict && severity == .warning then .error else severity

end RuleSettings

end CSharpTidy
