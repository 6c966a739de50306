import Mathlib.Data.List.Basic
import CSharpTidy.Rule.Repair

/-!
# What a report holds

A report lists the findings and the failures of the verdicts it is made of, in their order: by document
and then by rule. Under the default configuration every built-in rule is active and speaks as loudly as
it means to.
-/

namespace CSharpTidy

namespace Verdict

def findings : Verdict → List Finding
  | evaluated found => found
  | _ => []

def failure? : Verdict → Option FailedRule
  | failed failure => some failure
  | _ => none

def isSkipped : Verdict → Bool
  | skipped => true
  | _ => false

end Verdict

namespace RuleSet

variable {ruleSet : RuleSet} {document : Document} {documents : List Document} {finding : Finding}

theorem foldl_addVerdict (report : Report) (verdicts : List Verdict) :
    verdicts.foldl addVerdict report =
      ⟨report.findings ++ verdicts.flatMap Verdict.findings,
        report.failures ++ verdicts.filterMap Verdict.failure?,
        report.cancelled || verdicts.any Verdict.isSkipped⟩ := by
  induction verdicts generalizing report with
  | nil =>
      rw [List.foldl_nil, List.flatMap_nil, List.filterMap_nil, List.any_nil, List.append_nil,
        List.append_nil, Bool.or_false]
  | cons verdict verdicts ih =>
      rw [List.foldl_cons, ih, List.flatMap_cons, List.filterMap_cons, List.any_cons]
      cases verdict <;> simp [addVerdict, Verdict.findings, Verdict.failure?, Verdict.isSkipped]

def findingsOn (ruleSet : RuleSet) (document : Document) : List Finding :=
  ruleSet.active.flatMap fun rule =>
    match rule.evaluate document with
    | .ok found => found.map ruleSet.adjust
    | .error _ => []

def failuresOn (ruleSet : RuleSet) (document : Document) : List FailedRule :=
  ruleSet.active.filterMap fun rule =>
    match rule.evaluate document with
    | .ok _ => none
    | .error fault => some (.ofFault rule.id document.id fault)

/-- A run that is not cancelled leaves no rule and no document out. -/
theorem run_eq (ruleSet : RuleSet) (documents : List Document) :
    ruleSet.run documents =
      ⟨documents.flatMap ruleSet.findingsOn, documents.flatMap ruleSet.failuresOn, false⟩ := by
  have hpair : ∀ (document : Document) (rule : Rule), ruleSet.evaluatePair false document rule =
      match rule.evaluate document with
      | .ok found => .evaluated (found.map ruleSet.adjust)
      | .error fault => .failed (.ofFault rule.id document.id fault) := fun _ _ => rfl
  rw [run, runUnless, foldl_addVerdict, verdicts, Report.mk.injEq]
  refine ⟨?_, ?_, ?_⟩
  · rw [List.nil_append, List.flatMap_assoc]
    refine List.flatMap_congr fun document _ => ?_
    rw [findingsOn, List.flatMap_map]
    refine List.flatMap_congr fun rule _ => ?_
    rw [hpair]
    cases rule.evaluate document <;> rfl
  · rw [List.nil_append, List.filterMap_flatMap]
    refine List.flatMap_congr fun document _ => ?_
    rw [failuresOn, List.filterMap_map]
    refine List.filterMap_congr fun rule _ => ?_
    rw [Function.comp_apply, hpair]
    cases rule.evaluate document <;> rfl
  · rw [Bool.false_or, List.any_eq_false]
    intro verdict hverdict
    obtain ⟨document, -, hverdict⟩ := List.mem_flatMap.mp hverdict
    obtain ⟨rule, -, rfl⟩ := List.mem_map.mp hverdict
    rw [hpair]
    cases rule.evaluate document <;> simp [Verdict.isSkipped]

theorem mem_findings_run_iff : finding ∈ (ruleSet.run documents).findings ↔
    ∃ document ∈ documents, ∃ rule ∈ ruleSet.active, ∃ found,
      rule.evaluate document = .ok found ∧ finding ∈ found.map ruleSet.adjust := by
  simp only [run_eq, findingsOn, List.mem_flatMap]
  refine exists_congr fun document => and_congr_right fun _ => ?_
  refine exists_congr fun rule => and_congr_right fun _ => ?_
  cases rule.evaluate document with
  | ok found => simp
  | error fault => simp

/-- Every built-in rule under the default configuration. -/
def standard (policy : OrderPolicy) (options : FormatSettings) : RuleSet :=
  ⟨builtIn policy options, {}⟩

variable {policy : OrderPolicy} {options : FormatSettings}

theorem active_standard : (standard policy options).active = builtIn policy options := rfl

theorem fixers_standard : (standard policy options).fixers = builtIn policy options := rfl

theorem adjust_standard (finding : Finding) : (standard policy options).adjust finding = finding :=
  rfl

theorem check_standard (documents : List Document) :
    (standard policy options).check documents = .ok ((standard policy options).run documents) := by
  rw [check]
  rfl

end RuleSet

end CSharpTidy
