import CSharpTidy.Rule.Settings
import CSharpTidy.Rule.DirectiveOrder
import CSharpTidy.Rule.FormatCheck
import CSharpTidy.Rule.Report

namespace CSharpTidy

/-- Rules in the order in which they were registered, and how they are to be used. -/
structure RuleSet where
  rules : List Rule
  settings : RuleSettings

/-- What became of one rule on one document. -/
inductive Verdict where
  | evaluated (found : List Finding)
  | failed (failure : FailedRule)
  | skipped
deriving DecidableEq, Repr

namespace RuleSet

def builtIn (policy : OrderPolicy) (options : FormatSettings) : List Rule :=
  [DirectiveOrder.rule policy, FormatCheck.rule spacingFormatter options]

def active (ruleSet : RuleSet) : List Rule :=
  ruleSet.rules.filter fun rule => !ruleSet.settings.isDisabled rule.id

def adjust (ruleSet : RuleSet) (finding : Finding) : Finding :=
  { finding with
    severity := ruleSet.settings.severityFor finding.rule finding.severity }

def evaluatePair (ruleSet : RuleSet) (cancelled : Bool) (document : Document) (rule : Rule) :
    Verdict :=
  if cancelled then .skipped
  else
    match rule.evaluate document with
    | .ok found => .evaluated (found.map ruleSet.adjust)
    | .error fault => .failed (.ofFault rule.id document.id fault)

def addVerdict (report : Report) : Verdict → Report
  | .evaluated found => { report with findings := report.findings ++ found }
  | .failed failure => { report with failures := report.failures ++ [failure] }
  | .skipped => { report with cancelled := true }

/-- The verdicts on all pairs, by document and then by rule. -/
def verdicts (ruleSet : RuleSet) (cancelled : Bool) (documents : List Document) : List Verdict :=
  documents.flatMap fun document =>
    ruleSet.active.map (ruleSet.evaluatePair cancelled document)

/-- Judges documents in a run that may have been cancelled before it began. -/
def runUnless (ruleSet : RuleSet) (cancelled : Bool) (documents : List Document) : Report :=
  (ruleSet.verdicts cancelled documents).foldl addVerdict {}

def run (ruleSet : RuleSet) (documents : List Document) : Report :=
  ruleSet.runUnless false documents

/-- Judges documents, and fails with the first failure of a rule if the configuration says so. -/
def check (ruleSet : RuleSet) (documents : List Document) : Except Fault Report :=
  let report := ruleSet.run documents
  match ruleSet.settings.failOnRuleError, report.failures with
  | true, failure :: _ => .error (.ruleFailed failure.rule failure.message)
  | _, _ => .ok report

/-- Judges documents and hands the findings in each of them, in turn, to a sink. -/
def runInto {σ : Type} (ruleSet : RuleSet) (documents : List Document)
    (sink : σ → DocumentId → List Finding → σ) (initial : σ) : Report × σ :=
  let report := ruleSet.run documents
  (report, documents.foldl (fun state document =>
    sink state document.id (report.forDocument document.id)) initial)

/-- The sink that keeps all findings in one list. -/
def listSink (held : List Finding) (_ : DocumentId) (found : List Finding) :
    List Finding :=
  held ++ found

/-- The sink that keeps the findings of each document apart. -/
def mapSink (held : SortedMap DocumentId (List Finding)) (document : DocumentId)
    (found : List Finding) : SortedMap DocumentId (List Finding) :=
  held.insert document ((held.get? document).getD [] ++ found)

end RuleSet

end CSharpTidy
