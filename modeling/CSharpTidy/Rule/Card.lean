import CSharpTidy.Rule.RuleSet

namespace CSharpTidy

structure RuleCard where
  id : String
  title : String
  message : String
  description : String
  category : Category
  defaultSeverity : Severity
  severity : Severity
  canFix : Bool
  disabled : Bool
deriving DecidableEq, Repr

namespace RuleSet

def card (ruleSet : RuleSet) (rule : Rule) : RuleCard where
  id := rule.id
  title := rule.title
  message := rule.message
  description := rule.description
  category := rule.category
  defaultSeverity := rule.severity
  severity := ruleSet.settings.severityFor rule.id rule.severity
  canFix := rule.canFix
  disabled := ruleSet.settings.isDisabled rule.id

def cards (ruleSet : RuleSet) : List RuleCard := ruleSet.rules.map ruleSet.card

def card? (ruleSet : RuleSet) (rule : String) : Option RuleCard :=
  (ruleSet.rules.find? fun candidate => candidate.id == rule).map ruleSet.card

end RuleSet

end CSharpTidy
