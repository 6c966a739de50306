import CSharpTidy.Proofs.Rule.Course

/-!
# What a sink is told

A sink is not handed findings as rules make them. It gets the finished report in parts, one for each
document, picked out by the number that findings carry. Where rules put the number of the document
they judge on what they find, and no two documents share one, the parts are the report cut into pieces.
-/

namespace CSharpTidy

namespace Rule

/-- The rule puts the number of the document that it judges on everything it finds there. -/
def Tags (rule : Rule) : Prop :=
  ∀ document found, rule.evaluate document = .ok found →
    ∀ finding ∈ found, finding.document = document.id

end Rule

namespace RuleSet

variable {ruleSet : RuleSet} {document : Document} {documents : List Document}

theorem tags_directiveOrder (policy : OrderPolicy) : (DirectiveOrder.rule policy).Tags := by
  intro document found hevaluate finding hfinding
  simp only [DirectiveOrder.rule] at hevaluate
  split at hevaluate
  · cases hevaluate
  · cases hevaluate
    obtain ⟨scope, -, hblock⟩ := List.mem_filterMap.mp hfinding
    obtain ⟨block, -, rfl⟩ := Option.map_eq_some_iff.mp hblock
    rfl

theorem tags_formatCheck (formatter : Formatter) (options : FormatSettings) :
    (FormatCheck.rule formatter options).Tags := by
  intro document found hevaluate finding hfinding
  simp only [FormatCheck.rule] at hevaluate
  split at hevaluate
  · cases hevaluate
  · cases hevaluate
    obtain ⟨edit, -, rfl⟩ := List.mem_map.mp hfinding
    rfl

theorem tags_builtIn (policy : OrderPolicy) (options : FormatSettings) :
    ∀ rule ∈ builtIn policy options, rule.Tags :=
  List.forall_mem_cons.mpr ⟨tags_directiveOrder policy,
    List.forall_mem_singleton.mpr (tags_formatCheck spacingFormatter options)⟩

theorem document_of_mem_findingsOn (htags : ∀ rule ∈ ruleSet.active, rule.Tags) (document : Document) :
    ∀ finding ∈ ruleSet.findingsOn document, finding.document = document.id := by
  intro finding hfinding
  obtain ⟨rule, hrule, hfinding⟩ := List.mem_flatMap.mp hfinding
  split at hfinding
  · next found hevaluate =>
      obtain ⟨original, horiginal, rfl⟩ := List.mem_map.mp hfinding
      exact htags rule hrule document found hevaluate original horiginal
  · cases hfinding

/-- The part of a report that its number picks out for a document is what the rules find there. -/
theorem forDocument_run (htags : ∀ rule ∈ ruleSet.active, rule.Tags)
    (hids : (documents.map Document.id).Nodup) (hdocument : document ∈ documents) :
    (ruleSet.run documents).forDocument document.id = ruleSet.findingsOn document := by
  rw [Report.forDocument, run_eq]
  exact filter_flatMap_of_nodup hids hdocument (document_of_mem_findingsOn htags)

/-- The calls that a run makes on a sink, as one that takes them down has them. -/
def calls (ruleSet : RuleSet) (documents : List Document) : List (DocumentId × List Finding) :=
  (ruleSet.runInto documents (fun taken id found => taken ++ [(id, found)]) []).2

theorem calls_eq (ruleSet : RuleSet) (documents : List Document) :
    ruleSet.calls documents = documents.map fun document =>
      (document.id, (ruleSet.run documents).forDocument document.id) := by
  rw [calls, runInto, List.foldl_append_eq_append, List.nil_append, ← List.flatMap_def,
    ← List.map_eq_flatMap]

theorem runInto_eq {σ : Type} (ruleSet : RuleSet) (documents : List Document)
    (sink : σ → DocumentId → List Finding → σ) (initial : σ) :
    ruleSet.runInto documents sink initial = (ruleSet.run documents,
      (ruleSet.calls documents).foldl (fun state call => sink state call.1 call.2) initial) := by
  rw [calls_eq, List.foldl_map]
  rfl

theorem flatMap_calls (htags : ∀ rule ∈ ruleSet.active, rule.Tags)
    (hids : (documents.map Document.id).Nodup) :
    (ruleSet.calls documents).flatMap Prod.snd = (ruleSet.run documents).findings := by
  rw [calls_eq, List.flatMap_map, run_eq]
  refine List.flatMap_congr fun document hdocument => ?_
  rw [← run_eq]
  exact forDocument_run htags hids hdocument

section Sinks

variable {parts : List (DocumentId × List Finding)} {id : DocumentId}
  {held : SortedMap DocumentId (List Finding)}

theorem foldl_listSink (parts : List (DocumentId × List Finding)) (held : List Finding) :
    parts.foldl (fun held part => listSink held part.1 part.2) held =
      held ++ parts.flatMap Prod.snd :=
  List.foldl_append_eq_append

theorem ordered_foldl_mapSink (hheld : held.Ordered) :
    (parts.foldl (fun held part => mapSink held part.1 part.2) held).Ordered := by
  induction parts generalizing held with
  | nil => exact hheld
  | cons part parts ih => exact ih (hheld.insert _ _)

/-- A map that is told of documents holds for each, behind what it held, all it was told. -/
theorem get?_foldl_mapSink (parts : List (DocumentId × List Finding))
    (held : SortedMap DocumentId (List Finding)) (id : DocumentId) :
    (parts.foldl (fun held part => mapSink held part.1 part.2) held).get? id =
      if id ∈ parts.map Prod.fst then
        some ((held.get? id).getD [] ++ (parts.filter fun part => part.1 == id).flatMap Prod.snd)
      else held.get? id := by
  induction parts generalizing held with
  | nil => rfl
  | cons part parts ih =>
      obtain ⟨key, found⟩ := part
      rw [List.foldl_cons, ih, mapSink, SortedMap.get?_insert]
      by_cases hkey : id = key
      · subst hkey
        by_cases hlater : id ∈ parts.map Prod.fst
        · simp [hlater]
        · have hnone : parts.filter (fun part => part.1 == id) = [] := by
            refine List.filter_eq_nil_iff.mpr fun part hpart heq => hlater ?_
            exact beq_iff_eq.mp heq ▸ List.mem_map_of_mem hpart
          simp [hlater, hnone]
      · have hlater : id ∈ ((key, found) :: parts).map Prod.fst ↔ id ∈ parts.map Prod.fst := by
          simp [hkey]
        have hother : ((key, found) :: parts).filter (fun part => part.1 == id) =
            parts.filter fun part => part.1 == id :=
          List.filter_cons_of_neg (by simp [Ne.symm hkey])
        simp only [hlater, hother, hkey, Std.LawfulEqOrd.compare_eq_iff_eq, if_false]

end Sinks

theorem filter_calls (hids : (documents.map Document.id).Nodup) (hdocument : document ∈ documents) :
    ((ruleSet.calls documents).filter fun call => call.1 == document.id) =
      [(document.id, (ruleSet.run documents).forDocument document.id)] := by
  rw [calls_eq, List.map_eq_flatMap]
  exact filter_flatMap_of_nodup hids hdocument fun _ _ hcall => by rw [List.mem_singleton.mp hcall]

/-- **A sink is told everything once.** Where the active rules tag what they find, as the built-in ones
do, and documents have numbers of their own, a run calls its sink once for each document, in the order
of the documents, and what it tells in all these calls is the list of findings in its report. So a list
holds these findings at the end, and a map holds, under the number of each document and no other,
those of them that carry it. -/
theorem runInto_tells_once (ruleSet : RuleSet) (documents : List Document)
    (htags : ∀ rule ∈ ruleSet.active, rule.Tags) (hids : (documents.map Document.id).Nodup) :
    (ruleSet.calls documents).map Prod.fst = documents.map Document.id ∧
      (ruleSet.calls documents).flatMap Prod.snd = (ruleSet.run documents).findings ∧
      (∀ {σ : Type} (sink : σ → DocumentId → List Finding → σ) (initial : σ),
        ruleSet.runInto documents sink initial = (ruleSet.run documents,
          (ruleSet.calls documents).foldl (fun state call => sink state call.1 call.2) initial)) ∧
      (ruleSet.runInto documents listSink []).2 = (ruleSet.run documents).findings ∧
      (ruleSet.runInto documents mapSink {}).2.Ordered ∧
      (∀ id, (ruleSet.runInto documents mapSink {}).2.get? id =
        if id ∈ documents.map Document.id then
          some ((ruleSet.run documents).findings.filter fun finding => finding.document == id)
        else none) ∧
      ∀ policy options, ∀ rule ∈ builtIn policy options, rule.Tags := by
  have horder : (ruleSet.calls documents).map Prod.fst = documents.map Document.id := by
    rw [calls_eq, List.map_map]
    rfl
  have hfindings := flatMap_calls htags hids
  refine ⟨horder, hfindings, fun sink initial => runInto_eq ruleSet documents sink initial, ?_, ?_,
    fun id => ?_, tags_builtIn⟩
  · rw [runInto_eq, foldl_listSink, hfindings, List.nil_append]
  · rw [runInto_eq]
    exact ordered_foldl_mapSink SortedMap.ordered_empty
  · rw [runInto_eq, get?_foldl_mapSink, horder]
    by_cases hid : id ∈ documents.map Document.id
    · obtain ⟨document, hdocument, rfl⟩ := List.mem_map.mp hid
      rw [if_pos hid, if_pos hid, filter_calls hids hdocument, List.flatMap_singleton]
      rfl
    · rw [if_neg hid, if_neg hid]
      rfl

/-- Of three documents, given out of the order of their numbers, the empty one has nothing to be told
of. A rule that fails on all of them does not stand in the way. -/
theorem runInto_tells_once_of_empty :
    let failing : Rule :=
      ⟨"failing", "", "", "", .ordering, .error, false, fun _ => .error (Rule.noFix "failing"),
        fun _ => .ok []⟩
    let erasing : Formatter := fun document _ => .ok (document.text.map fun _ => .delete ⟨0, 1⟩)
    let ruleSet : RuleSet := ⟨[failing, FormatCheck.rule erasing {}], {}⟩
    let documents : List Document :=
      [⟨⟨2⟩, ⟨"B.cs"⟩, ['b'], .error ""⟩, ⟨⟨0⟩, ⟨"A.cs"⟩, [], .error ""⟩,
        ⟨⟨1⟩, ⟨"C.cs"⟩, ['c', ';'], .error ""⟩]
    (∀ rule ∈ ruleSet.active, rule.Tags) ∧ (documents.map Document.id).Nodup ∧
      (ruleSet.calls documents).map Prod.fst = [⟨2⟩, ⟨0⟩, ⟨1⟩] ∧
      (ruleSet.calls documents).map (fun call => call.2.length) = [1, 0, 2] ∧
      (ruleSet.runInto documents listSink []).2 = (ruleSet.run documents).findings ∧
      (ruleSet.runInto documents mapSink {}).2.get? ⟨0⟩ = some [] := by
  intro failing erasing ruleSet documents
  have hfailing : failing.Tags := fun document found hevaluate => by cases hevaluate
  have htags : ∀ rule ∈ ruleSet.active, rule.Tags :=
    List.forall_mem_cons.mpr ⟨hfailing, List.forall_mem_singleton.mpr (tags_formatCheck erasing {})⟩
  have hids : (documents.map Document.id).Nodup := by decide
  obtain ⟨horder, -, -, hlist, -, hmap, -⟩ := runInto_tells_once ruleSet documents htags hids
  exact ⟨htags, hids, horder, by decide, hlist, hmap ⟨0⟩⟩

end RuleSet

end CSharpTidy
