import CSharpTidy.Run
import CSharpTidy.Proofs.Workspace.Commit

/-!
# What an editing step does to a run

Fixing and formatting propose texts for documents of the working snapshot only. So no proposal is
refused, and the working snapshot becomes the variant of it that holds the proposed texts.
-/

namespace CSharpTidy

open Solution (Variant)

variable {solution base : Solution} {id : DocumentId} {text : Text}

/-- The changes that give documents the texts that a function has for them. -/
def Changes.ofTexts (propose : Document → Option Text) (documents : List Document) : Changes :=
  .ofList (documents.filterMap fun document => (propose document).map fun text => (document.id, text))

namespace Changes

variable {propose : Document → Option Text} {documents : List Document}

theorem ordered_ofTexts (propose : Document → Option Text) (documents : List Document) :
    (ofTexts propose documents).Ordered :=
  SortedMap.ordered_ofList _

theorem get?_ofTexts_eq_some_iff (h : (documents.map Document.id).Nodup) :
    (ofTexts propose documents).get? id = some text ↔
      ∃ document ∈ documents, document.id = id ∧ propose document = some text := by
  have hkeys : (documents.filterMap fun document =>
      (propose document).map fun text => (document.id, text)).map Prod.fst =
      (documents.filter fun document => (propose document).isSome).map Document.id := by
    rw [List.map_filterMap, ← List.filterMap_eq_map, List.filterMap_filter]
    refine List.filterMap_congr fun document _ => ?_
    cases propose document <;> rfl
  rw [ofTexts, SortedMap.get?_ofList_eq_some_iff]
  · simp only [List.mem_filterMap, Option.map_eq_some_iff, Prod.mk.injEq]
    constructor
    · rintro ⟨document, hmem, found, hpropose, rfl, rfl⟩
      exact ⟨document, hmem, rfl, hpropose⟩
    · rintro ⟨document, hmem, rfl, hpropose⟩
      exact ⟨document, hmem, text, hpropose, rfl, rfl⟩
  · rw [hkeys]
    exact h.sublist (List.filter_sublist.map Document.id)

theorem mem_ids_of_get?_ofTexts (h : solution.ids.Nodup)
    (hget : (ofTexts propose solution.documents).get? id = some text) : id ∈ solution.ids := by
  obtain ⟨document, hmem, rfl, -⟩ := (get?_ofTexts_eq_some_iff h).mp hget
  exact List.mem_map_of_mem hmem

theorem foldl_insert_eq {ω : Type} (changes : ω → Changes) (add : ω → Document → ω)
    (hadd : ∀ outcome document, changes (add outcome document) =
      match propose document with
      | some text => (changes outcome).insert document.id text
      | none => changes outcome)
    (documents : List Document) (outcome : ω) :
    changes (documents.foldl add outcome) =
      (changes outcome).insertMany (documents.filterMap fun document =>
        (propose document).map fun text => (document.id, text)) := by
  induction documents generalizing outcome with
  | nil => rfl
  | cons document documents ih =>
      rw [List.foldl_cons, ih, hadd, List.filterMap_cons]
      cases propose document <;> rfl

end Changes

/-- The text that a formatter gives a document, if it has another one for it. -/
def reformed (formatter : Formatter) (options : FormatSettings) (document : Document) :
    Option Text :=
  match formattedText? formatter document options with
  | .ok text => text
  | .error _ => none

theorem changes_formatAll (formatter : Formatter) (solution : Solution) (options : FormatSettings) :
    (formatAll formatter solution options).changes =
      .ofTexts (reformed formatter options) solution.documents := by
  refine Changes.foldl_insert_eq FormatResult.changes _ (fun outcome document => ?_) _ {}
  rw [FormatResult.add, reformed]
  cases formattedText? formatter document options with
  | error fault => rfl
  | ok text => cases text <;> rfl

theorem changes_repairAll (ruleSet : RuleSet) (reader : Reader) (documents : List Document) :
    (ruleSet.repairAll reader documents).changes =
      .ofTexts (fun document => (ruleSet.repair reader document).text) documents := by
  rw [RuleSet.repairAll, List.foldl_map]
  refine Changes.foldl_insert_eq Repairs.changes _ (fun outcome document => ?_) _ ⟨{}, [], []⟩
  rw [RuleSet.addRepair]
  rfl

namespace Run

variable {run : Run} {changes : Changes} {propose : Document → Option Text}

theorem editEach_eq {staged next : Staging} {entries : List (DocumentId × Text)}
    (h : staged.apply entries = .ok next) (hworking : run.working = staged.solution) :
    run.editEach entries = (.ok (entries.map Prod.fst), { run with working := next.solution }) := by
  induction entries generalizing run staged with
  | nil =>
      obtain rfl := Except.ok.inj h
      rw [editEach, ← hworking]
      rfl
  | cons entry entries ih =>
      obtain ⟨id, text⟩ := entry
      cases hset : staged.solution.setText id text with
      | error fault =>
          rw [Staging.apply, hset] at h
          cases h
      | ok result =>
          obtain ⟨solution, notices⟩ := result
          rw [Staging.apply, hset] at h
          have hrest : ({ run with working := solution } : Run).editEach entries =
              (.ok (entries.map Prod.fst), { run with working := next.solution }) := ih h rfl
          rw [editEach, hworking, hset]
          simp only [hrest]
          rfl

/-- A run that is given texts for documents it has takes them all. -/
theorem exists_edit (h : run.working.Sound) (hchanges : changes.Ordered)
    (hknown : ∀ id text, changes.get? id = some text → id ∈ run.working.ids) :
    ∃ working, run.edit changes =
        (.ok (changes.effective run.working).keys, { run with working, state := .edited }) ∧
      run.working.Variant working ∧ working.version = run.working.version ∧
      ∀ id, working.text? id = (changes.get? id).or (run.working.text? id) := by
  obtain ⟨staged, hstage, hstaged⟩ := exists_stage h hchanges hknown
  refine ⟨staged.solution, ?_, hstaged.variant, hstaged.version, hstaged.texts⟩
  rw [edit, editEach_eq hstage rfl]
  rfl

theorem exists_edit_ofTexts (h : run.working.Sound) (propose : Document → Option Text) :
    ∃ changed working, run.edit (.ofTexts propose run.working.documents) =
        (.ok changed, { run with working, state := .edited }) ∧
      run.working.Variant working ∧ working.version = run.working.version ∧
      ∀ id, working.text? id =
        ((Changes.ofTexts propose run.working.documents).get? id).or (run.working.text? id) := by
  obtain ⟨working, hedit, hworking⟩ := exists_edit h (Changes.ordered_ofTexts ..)
    fun id text => Changes.mem_ids_of_get?_ofTexts h.nodup
  exact ⟨_, working, hedit, hworking⟩

end Run

end CSharpTidy
