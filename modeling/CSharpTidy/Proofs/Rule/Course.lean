import CSharpTidy.Proofs.Rule.Isolation
import CSharpTidy.Proofs.Run.Edit
import CSharpTidy.Proofs.Text.Splice

/-!
# The course of the fixes of a document

The rules that can fix take turns at a document. A turn moves it on to the text that the edits of the
rule make of it, read anew, or leaves it where it is: because the rule has nothing to change, or
because it fails. What later rules see is therefore the same with and without a rule that fails.
-/

namespace CSharpTidy

namespace Rule

/-- The rule has edits for the document, which cut its text and are clear of each other, and one at a
time, from the last to the first, they make `text` of it. -/
def FixesTo (rule : Rule) (document : Document) (text : Text) : Prop :=
  ∃ edits, rule.fix document = .ok edits ∧ edits ≠ [] ∧
    (∀ edit ∈ edits, edit.span.Cuts document.text) ∧ edits.Pairwise Edit.Clear ∧
    ∃ arranged, Edit.Arranges edits arranged ∧ text = arranged.foldr Edit.applyTo document.text

/-- The rule has no edits for the document that could be applied: it fails itself, or one of its edits
lies outside of the text or splits a character, or two overlap. -/
def FailsOn (rule : Rule) (document : Document) (fault : Fault) : Prop :=
  rule.fix document = .error fault ∨
    ∃ edits, rule.fix document = .ok edits ∧
      ¬((∀ edit ∈ edits, edit.span.Cuts document.text) ∧ edits.Pairwise Edit.Clear) ∧
      Edit.applyAll document.text edits = .error fault

end Rule

/-- What rules do to a document, one after the other: the document they leave behind, the rules whose
fixes were applied, and the failures. -/
inductive Course (reader : Reader) :
    Document → List Rule → Document → List String → List FailedRule → Prop
  | done {document : Document} : Course reader document [] document [] []
  | idle {document last : Document} {rule : Rule} {rules : List Rule} {applied : List String}
      {failures : List FailedRule} (hfix : rule.fix document = .ok [])
      (hrest : Course reader document rules last applied failures) :
      Course reader document (rule :: rules) last applied failures
  | applied {document last : Document} {rule : Rule} {rules : List Rule} {applied : List String}
      {failures : List FailedRule} {text : Text} (hfix : rule.FixesTo document text)
      (hrest : Course reader (document.withText reader text).1 rules last applied failures) :
      Course reader document (rule :: rules) last (rule.id :: applied) failures
  | failed {document last : Document} {rule : Rule} {rules : List Rule} {applied : List String}
      {failures : List FailedRule} {fault : Fault} (hfix : rule.FailsOn document fault)
      (hrest : Course reader document rules last applied failures) :
      Course reader document (rule :: rules) last applied
        (⟨rule.id, document.id, fault.message⟩ :: failures)

/-- What became of one document among others. -/
def Repairs.of (repairs : Repairs) (id : DocumentId) : Repair where
  document := id
  text := repairs.changes.get? id
  applied := (repairs.applied.filter fun entry => entry.1 == id).map Prod.snd
  failures := repairs.failures.filter fun failure => failure.document == id

namespace RuleSet

section Turn

variable {rule : Rule} {document : Document} {edits : List Edit} {text : Text} {fault : Fault}

theorem fixedText?_of_nil (hfix : rule.fix document = .ok []) :
    fixedText? rule document = .ok none := by
  rw [fixedText?, hfix]
  rfl

theorem fixedText?_of_ne_nil (hfix : rule.fix document = .ok edits) (hne : edits ≠ []) :
    fixedText? rule document = (Edit.applyAll document.text edits).map some := by
  rw [fixedText?, hfix]
  simp only [List.isEmpty_eq_false_iff.mpr hne, Bool.false_eq_true, if_false]
  cases Edit.applyAll document.text edits <;> rfl

theorem fixedText?_of_fixesTo (hfix : rule.FixesTo document text) :
    fixedText? rule document = .ok (some text) := by
  obtain ⟨edits, hedits, hne, happly⟩ := hfix
  rw [fixedText?_of_ne_nil hedits hne, Edit.applyAll_eq_ok_iff.mpr happly]
  rfl

theorem fixedText?_of_failsOn (hfix : rule.FailsOn document fault) :
    fixedText? rule document = .error fault := by
  obtain hfix | ⟨edits, hedits, hrefused, happly⟩ := hfix
  · rw [fixedText?, hfix]
  · have hne : edits ≠ [] := by
      rintro rfl
      exact hrefused ⟨by simp, .nil⟩
    rw [fixedText?_of_ne_nil hedits hne, happly]
    rfl

theorem turn_cases (rule : Rule) (document : Document) :
    rule.fix document = .ok [] ∨ (∃ text, rule.FixesTo document text) ∨
      ∃ fault, rule.FailsOn document fault := by
  cases hfix : rule.fix document with
  | error fault => exact .inr (.inr ⟨fault, .inl hfix⟩)
  | ok edits =>
      by_cases hne : edits = []
      · exact .inl (congrArg Except.ok hne)
      cases happly : Edit.applyAll document.text edits with
      | ok text => exact .inr (.inl ⟨text, edits, hfix, hne, Edit.applyAll_eq_ok_iff.mp happly⟩)
      | error fault =>
          refine .inr (.inr ⟨fault, .inr ⟨edits, hfix, fun haccepted => ?_, happly⟩⟩)
          obtain ⟨text, htext⟩ := Edit.exists_applyAll_iff.mpr haccepted
          rw [happly] at htext
          cases htext

end Turn

end RuleSet

namespace Course

open RuleSet (RepairState repairStep turn_cases)

variable {reader : Reader} {document left last last' : Document} {rules others : List Rule}
  {applied applied' : List String} {failures failures' : List FailedRule}

theorem foldl_eq (h : Course reader document rules last applied failures) (held : List String)
    (reported : List FailedRule) :
    rules.foldl (repairStep reader) ⟨document, held, reported⟩ =
      ⟨last, held ++ applied, reported ++ failures⟩ := by
  induction h generalizing held reported with
  | done => rw [List.foldl_nil, List.append_nil, List.append_nil]
  | idle hfix _ ih =>
      rw [List.foldl_cons, repairStep, RuleSet.fixedText?_of_nil hfix]
      exact ih held reported
  | applied hfix _ ih =>
      rw [List.foldl_cons, repairStep, RuleSet.fixedText?_of_fixesTo hfix]
      refine (ih _ reported).trans ?_
      rw [List.append_assoc, List.singleton_append]
  | failed hfix _ ih =>
      rw [List.foldl_cons, repairStep, RuleSet.fixedText?_of_failsOn hfix]
      refine (ih held _).trans ?_
      rw [List.append_assoc, List.singleton_append]
      rfl

theorem exists_course (reader : Reader) (document : Document) (rules : List Rule) :
    ∃ last applied failures, Course reader document rules last applied failures := by
  induction rules generalizing document with
  | nil => exact ⟨document, [], [], .done⟩
  | cons rule rules ih =>
      obtain hidle | ⟨text, hfixes⟩ | ⟨fault, hfails⟩ := turn_cases rule document
      · obtain ⟨last, applied, failures, hrest⟩ := ih document
        exact ⟨last, applied, failures, .idle hidle hrest⟩
      · obtain ⟨last, applied, failures, hrest⟩ := ih (document.withText reader text).1
        exact ⟨last, rule.id :: applied, failures, .applied hfixes hrest⟩
      · obtain ⟨last, applied, failures, hrest⟩ := ih document
        exact ⟨last, applied, _, .failed hfails hrest⟩

theorem unique (h : Course reader document rules last applied failures)
    (h' : Course reader document rules last' applied' failures') :
    last = last' ∧ applied = applied' ∧ failures = failures' := by
  have heq := (h.foldl_eq [] []).symm.trans (h'.foldl_eq [] [])
  simpa using heq

theorem append (h : Course reader document rules left applied failures)
    (h' : Course reader left others last applied' failures') :
    Course reader document (rules ++ others) last (applied ++ applied') (failures ++ failures') := by
  induction h with
  | done => exact h'
  | idle hfix _ ih => exact .idle hfix (ih h')
  | applied hfix _ ih => exact .applied hfix (ih h')
  | failed hfix _ ih => exact .failed hfix (ih h')

theorem id_eq (h : Course reader document rules last applied failures) : last.id = document.id := by
  induction h with
  | done => rfl
  | idle _ _ ih => exact ih
  | applied _ _ ih => exact ih
  | failed _ _ ih => exact ih

theorem document_of_mem_failures (h : Course reader document rules last applied failures) :
    ∀ failure ∈ failures, failure.document = document.id := by
  induction h with
  | done => simp
  | idle _ _ ih => exact ih
  | applied _ _ ih => exact ih
  | failed _ _ ih => exact List.forall_mem_cons.mpr ⟨rfl, ih⟩

end Course

namespace RuleSet

variable {ruleSet : RuleSet} {reader : Reader} {document last : Document} {documents : List Document}
  {applied : List String} {failures : List FailedRule} {rule : Rule} {index : Nat}

theorem repair_eq (h : Course reader document ruleSet.fixers last applied failures) :
    ruleSet.repair reader document =
      ⟨document.id, if last.text = document.text then none else some last.text, applied,
        failures⟩ := by
  rw [repair, h.foldl_eq [] []]
  rfl

theorem foldl_addRepair (repairs : List Repair) (outcome : Repairs) :
    (repairs.foldl addRepair outcome).applied = outcome.applied ++ repairs.flatMap (fun repair =>
        repair.applied.map fun rule => (repair.document, rule)) ∧
      (repairs.foldl addRepair outcome).failures =
        outcome.failures ++ repairs.flatMap Repair.failures := by
  induction repairs generalizing outcome with
  | nil => simp
  | cons repair repairs ih =>
      obtain ⟨happlied, hfailures⟩ := ih (addRepair outcome repair)
      rw [List.foldl_cons, happlied, hfailures, List.flatMap_cons, List.flatMap_cons,
        ← List.append_assoc, ← List.append_assoc]
      exact ⟨rfl, rfl⟩

section Told

variable {β : Type} {told : Document → List β} {about : β → DocumentId} {id : DocumentId}

theorem filter_flatMap_of_not_mem (hid : id ∉ documents.map Document.id)
    (habout : ∀ document, ∀ entry ∈ told document, about entry = document.id) :
    (documents.flatMap told).filter (fun entry => about entry == id) = [] := by
  rw [List.filter_eq_nil_iff]
  intro entry hentry heq
  obtain ⟨document, hdocument, hentry⟩ := List.mem_flatMap.mp hentry
  rw [← beq_iff_eq.mp heq, habout document entry hentry] at hid
  exact hid (List.mem_map_of_mem hdocument)

/-- What is told of documents with numbers of their own, told apart by these. -/
theorem filter_flatMap_of_nodup (hids : (documents.map Document.id).Nodup)
    (hdocument : document ∈ documents)
    (habout : ∀ document, ∀ entry ∈ told document, about entry = document.id) :
    (documents.flatMap told).filter (fun entry => about entry == document.id) = told document := by
  have hself : (told document).filter (fun entry => about entry == document.id) = told document :=
    List.filter_eq_self.mpr fun entry hentry => beq_iff_eq.mpr (habout document entry hentry)
  obtain ⟨before, after, rfl⟩ := List.append_of_mem hdocument
  rw [List.map_append, List.map_cons, List.nodup_middle, List.nodup_cons, List.mem_append,
    not_or] at hids
  rw [List.flatMap_append, List.flatMap_cons, List.filter_append, List.filter_append, hself,
    filter_flatMap_of_not_mem hids.1.1 habout, filter_flatMap_of_not_mem hids.1.2 habout,
    List.nil_append, List.append_nil]

end Told

theorem document_of_mem_applied (ruleSet : RuleSet) (reader : Reader) (document : Document) :
    ∀ entry ∈ (ruleSet.repair reader document).applied.map fun rule => (document.id, rule),
      entry.1 = document.id := by
  intro entry hentry
  obtain ⟨rule, -, rfl⟩ := List.mem_map.mp hentry
  rfl

theorem document_of_mem_failures (ruleSet : RuleSet) (reader : Reader) (document : Document) :
    ∀ failure ∈ (ruleSet.repair reader document).failures, failure.document = document.id := by
  obtain ⟨last, applied, failures, hcourse⟩ := Course.exists_course reader document ruleSet.fixers
  rw [repair_eq hcourse]
  exact hcourse.document_of_mem_failures

theorem repairAll_told (ruleSet : RuleSet) (reader : Reader) (documents : List Document) :
    (ruleSet.repairAll reader documents).applied = documents.flatMap (fun document =>
        (ruleSet.repair reader document).applied.map fun rule => (document.id, rule)) ∧
      (ruleSet.repairAll reader documents).failures =
        documents.flatMap fun document => (ruleSet.repair reader document).failures := by
  have hfold := foldl_addRepair (documents.map (ruleSet.repair reader)) ⟨{}, [], []⟩
  rw [List.flatMap_map, List.flatMap_map] at hfold
  exact hfold

/-- What becomes of a document is what becomes of it alone. -/
theorem of_repairAll (hids : (documents.map Document.id).Nodup) (hdocument : document ∈ documents) :
    (ruleSet.repairAll reader documents).of document.id = ruleSet.repair reader document := by
  obtain ⟨happlied, hfailures⟩ := repairAll_told ruleSet reader documents
  have htext : (ruleSet.repairAll reader documents).changes.get? document.id =
      (ruleSet.repair reader document).text := by
    rw [changes_repairAll]
    refine Option.ext fun text => (Changes.get?_ofTexts_eq_some_iff hids).trans ⟨?_, fun h => ?_⟩
    · rintro ⟨other, hother, hid, h⟩
      rwa [← List.inj_on_of_nodup_map hids hother hdocument hid]
    · exact ⟨document, hdocument, rfl, h⟩
  rw [Repairs.of, htext, happlied, hfailures,
    filter_flatMap_of_nodup hids hdocument (document_of_mem_applied ruleSet reader),
    filter_flatMap_of_nodup hids hdocument (document_of_mem_failures ruleSet reader), List.map_map]
  congr 1
  exact List.map_id _

theorem of_repairAll_of_not_mem {id : DocumentId} (hids : (documents.map Document.id).Nodup)
    (hid : id ∉ documents.map Document.id) :
    (ruleSet.repairAll reader documents).of id = ⟨id, none, [], []⟩ := by
  obtain ⟨happlied, hfailures⟩ := repairAll_told ruleSet reader documents
  have htext : (ruleSet.repairAll reader documents).changes.get? id = none := by
    rw [changes_repairAll]
    refine Option.eq_none_iff_forall_not_mem.mpr fun text h => hid ?_
    obtain ⟨document, hdocument, rfl, -⟩ := (Changes.get?_ofTexts_eq_some_iff hids).mp h
    exact List.mem_map_of_mem hdocument
  rw [Repairs.of, htext, happlied, hfailures,
    filter_flatMap_of_not_mem hid (document_of_mem_applied ruleSet reader),
    filter_flatMap_of_not_mem hid (document_of_mem_failures ruleSet reader)]
  rfl

/-- The rules that were registered in front of a place. -/
def upTo (ruleSet : RuleSet) (index : Nat) : RuleSet :=
  { ruleSet with rules := ruleSet.rules.take index }

/-- A rule that takes part does so behind those that were registered in front of it. -/
theorem exists_fixers_split (hrule : ruleSet.rules[index]? = some rule)
    (henabled : ruleSet.settings.isDisabled rule.id = false) (hfixable : rule.canFix = true) :
    ∃ behind, ruleSet.fixers = (ruleSet.upTo index).fixers ++ rule :: behind ∧
      (ruleSet.without index).fixers = (ruleSet.upTo index).fixers ++ behind := by
  obtain ⟨hindex, hrule⟩ := List.getElem?_eq_some_iff.mp hrule
  have hsplit : ruleSet.rules =
      ruleSet.rules.take index ++ rule :: ruleSet.rules.drop (index + 1) := by
    rw [← hrule, List.getElem_cons_drop, List.take_append_drop]
  refine ⟨fixers { ruleSet with rules := ruleSet.rules.drop (index + 1) }, ?_, ?_⟩
  · conv_lhs => rw [fixers, active, hsplit]
    rw [List.filter_append, List.filter_append, List.filter_cons_of_pos (by simp [henabled]),
      List.filter_cons_of_pos hfixable]
    rfl
  · rw [fixers, active, without, List.eraseIdx_eq_take_drop_succ, List.filter_append,
      List.filter_append]
    rfl

theorem course_without_failed {left : Document} {fault : Fault}
    (hrule : ruleSet.rules[index]? = some rule)
    (henabled : ruleSet.settings.isDisabled rule.id = false) (hfixable : rule.canFix = true)
    (hleft : Course reader document (ruleSet.upTo index).fixers left applied failures)
    (hfails : rule.FailsOn left fault) :
    ∃ last applied before after,
      Course reader document ruleSet.fixers last applied
        (before ++ ⟨rule.id, document.id, fault.message⟩ :: after) ∧
      Course reader document (ruleSet.without index).fixers last applied (before ++ after) := by
  obtain ⟨behind, hfixers, hwithout⟩ := exists_fixers_split hrule henabled hfixable
  obtain ⟨last, applied', failures', hrest⟩ := Course.exists_course reader left behind
  rw [hfixers, hwithout]
  refine ⟨last, applied ++ applied', failures, failures', ?_, hleft.append hrest⟩
  have hfailed := hleft.append (Course.failed hfails hrest)
  rwa [hleft.id_eq] at hfailed

/-- **Fixes take turns.** What is proposed for a document is what its course through the active rules that
can fix makes of it: each turn on the text that the last good one left, read anew, and no trace in
the text of a turn that fails. A document is among the changes just if the course leaves it with another
text. A rule that fails at its turn can be left out, and nothing becomes of the document otherwise but
that its failure is missing; nor does it matter which other documents there are. -/
theorem fixes_take_turns (ruleSet : RuleSet) (reader : Reader) (documents : List Document)
    (hids : (documents.map Document.id).Nodup) :
    (∀ document ∈ documents, ∃ last applied failures,
      Course reader document ruleSet.fixers last applied failures ∧
        (ruleSet.repairAll reader documents).of document.id =
          ⟨document.id, if last.text = document.text then none else some last.text, applied,
            failures⟩ ∧
        (document.id ∈ (ruleSet.repairAll reader documents).changes.keys ↔
          last.text ≠ document.text)) ∧
    (∀ id, id ∉ documents.map Document.id →
      (ruleSet.repairAll reader documents).of id = ⟨id, none, [], []⟩) ∧
    (∀ index rule, ruleSet.rules[index]? = some rule →
      ruleSet.settings.isDisabled rule.id = false → rule.canFix = true →
      ∀ document ∈ documents, ∀ left applied failures fault,
        Course reader document (ruleSet.upTo index).fixers left applied failures →
        rule.FailsOn left fault →
        ∃ before after,
          ((ruleSet.repairAll reader documents).of document.id).failures =
            before ++ ⟨rule.id, document.id, fault.message⟩ :: after ∧
          ((ruleSet.without index).repairAll reader documents).of document.id =
            { (ruleSet.repairAll reader documents).of document.id with
              failures := before ++ after }) ∧
    ∀ others, (others.map Document.id).Nodup → ∀ document ∈ documents, document ∈ others →
      (ruleSet.repairAll reader others).of document.id =
        (ruleSet.repairAll reader documents).of document.id := by
  refine ⟨fun document hdocument => ?_, fun id hid => of_repairAll_of_not_mem hids hid, ?_, ?_⟩
  · obtain ⟨last, applied, failures, hcourse⟩ := Course.exists_course reader document ruleSet.fixers
    have hof := (of_repairAll hids hdocument).trans (repair_eq hcourse)
    refine ⟨last, applied, failures, hcourse, hof, ?_⟩
    have hordered : (ruleSet.repairAll reader documents).changes.Ordered := by
      rw [changes_repairAll]
      exact Changes.ordered_ofTexts _ _
    -- a document has an entry among the changes where its own turn leaves another text
    have htext : (ruleSet.repairAll reader documents).changes.get? document.id =
        if last.text = document.text then none else some last.text := congrArg Repair.text hof
    rw [hordered.mem_keys_iff, htext]
    by_cases hsame : last.text = document.text
    · simp [hsame]
    · simp [hsame]
  · intro index rule hrule henabled hfixable document hdocument left applied failures fault hleft hfails
    obtain ⟨last, applied, before, after, hcourse, hwithout⟩ :=
      course_without_failed hrule henabled hfixable hleft hfails
    rw [of_repairAll hids hdocument, of_repairAll hids hdocument, repair_eq hcourse,
      repair_eq hwithout]
    exact ⟨before, after, rfl, rfl⟩
  · intro others hothers document hdocument hother
    rw [of_repairAll hids hdocument, of_repairAll hothers hother]

/-- A rule that reaches out of the text does not stand in the way of the one behind it. -/
theorem fixes_take_turns_of_overreach :
    let overreaching : Rule :=
      ⟨"overreach", "", "", "", .formatting, .error, true, fun _ => .ok [],
        fun _ => .ok [Edit.delete ⟨0, 9⟩]⟩
    let marking : Rule :=
      ⟨"mark", "", "", "", .formatting, .error, true, fun _ => .ok [],
        fun _ => .ok [Edit.insert 0 ['x']]⟩
    let ruleSet : RuleSet := ⟨[overreaching, marking], {}⟩
    let document : Document := ⟨⟨0⟩, ⟨"a.cs"⟩, ['b'], .error ""⟩
    (ruleSet.repairAll CSharp.reader [document]).of ⟨0⟩ =
        ⟨⟨0⟩, some ['x', 'b'], ["mark"],
          [⟨"overreach", ⟨0⟩, (Fault.invalidSpan 0 9 1).message⟩]⟩ ∧
      ((ruleSet.without 0).repairAll CSharp.reader [document]).of ⟨0⟩ =
        ⟨⟨0⟩, some ['x', 'b'], ["mark"], []⟩ := by
  intro overreaching marking ruleSet document
  obtain ⟨hturns, -, hleft, -⟩ := fixes_take_turns ruleSet CSharp.reader [document] (by decide)
  have hfails : overreaching.FailsOn document (.invalidSpan 0 9 1) := by
    refine .inr ⟨_, rfl, by decide, ?_⟩
    rw [Edit.applyAll, Edit.sort, List.mergeSort_singleton]
    rfl
  have hfixes : marking.FixesTo document ['x', 'b'] :=
    ⟨_, rfl, by decide, by decide, by decide, [Edit.insert 0 ['x']], by decide, rfl⟩
  have hcourse : Course CSharp.reader document ruleSet.fixers _ _ _ :=
    .failed hfails (.applied hfixes .done)
  obtain ⟨last, applied, failures, hcourse', hof, -⟩ := hturns document List.mem_cons_self
  obtain ⟨rfl, rfl, rfl⟩ := hcourse.unique hcourse'
  obtain ⟨before, after, hfailures, hwithout⟩ := hleft 0 overreaching rfl rfl rfl document
    List.mem_cons_self document [] [] _ .done hfails
  rw [hof] at hfailures hwithout
  obtain ⟨rfl, hafter⟩ | ⟨-, hnil⟩ := List.append_eq_singleton_iff.mp hfailures.symm
  · obtain rfl := (List.cons.inj hafter).2
    exact ⟨hof, hwithout⟩
  · cases hnil

end RuleSet

end CSharpTidy
