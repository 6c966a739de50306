import CSharpTidy.Changes
import CSharpTidy.Rule.RuleSet

namespace CSharpTidy

structure Repair where
  document : DocumentId
  /-- The last good text, if it differs from the first. -/
  text : Option Text
  applied : List String
  failures : List FailedRule

structure Repairs where
  changes : Changes
  /-- Each fix that was applied. -/
  applied : List (DocumentId × String)
  failures : List FailedRule

namespace RuleSet

/-- The text a rule makes of a document, if it would change anything. -/
def fixedText? (rule : Rule) (document : Document) : Except Fault (Option Text) :=
  match rule.fix document with
  | .error fault => .error fault
  | .ok edits =>
      if edits.isEmpty then .ok none
      else
        match Edit.applyAll document.text edits with
        | .error fault => .error fault
        | .ok text => .ok (some text)

/-- A document on its way through the fixes of several rules. -/
structure RepairState where
  document : Document
  applied : List String := []
  failures : List FailedRule := []

/-- Applies the fix of one rule. One that fails leaves the document as it was. -/
def repairStep (reader : Reader) (state : RepairState) (rule : Rule) : RepairState :=
  match fixedText? rule state.document with
  | .ok (some text) =>
      { state with
        document := (state.document.withText reader text).1
        applied := state.applied ++ [rule.id] }
  | .ok none => state
  | .error fault =>
      { state with failures := state.failures ++ [.ofFault rule.id state.document.id fault] }

def fixers (ruleSet : RuleSet) : List Rule := ruleSet.active.filter Rule.canFix

/-- Applies the fixes of all active rules, each to the text that the one before it left. -/
def repair (ruleSet : RuleSet) (reader : Reader) (document : Document) : Repair :=
  let state := ruleSet.fixers.foldl (repairStep reader) ⟨document, [], []⟩
  let text := if state.document.text = document.text then none else some state.document.text
  ⟨document.id, text, state.applied, state.failures⟩

def addRepair (outcome : Repairs) (repair : Repair) : Repairs where
  changes :=
    match repair.text with
    | some text => outcome.changes.insert repair.document text
    | none => outcome.changes
  applied := outcome.applied ++ repair.applied.map fun rule => (repair.document, rule)
  failures := outcome.failures ++ repair.failures

def repairAll (ruleSet : RuleSet) (reader : Reader) (documents : List Document) :
    Repairs :=
  (documents.map (ruleSet.repair reader)).foldl addRepair ⟨{}, [], []⟩

end RuleSet

end CSharpTidy
