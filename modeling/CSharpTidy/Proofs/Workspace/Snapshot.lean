import Mathlib.Data.List.Nodup
import CSharpTidy.Workspace.Basic
import CSharpTidy.Proofs.SortedMap

/-!
# Snapshots and what staging makes of them

The front end is the only source of documents, so a snapshot is known by its frame, its version and its
texts. Staging is described by these three, and two ways of making the same texts agree.
-/

namespace CSharpTidy

namespace Solution

/-- No number stands for two documents, and each document is what the reader makes of its text. -/
structure Sound (solution : Solution) : Prop where
  nodup : solution.ids.Nodup
  parsed : ∀ document ∈ solution.documents,
    document = (Document.parse solution.reader document.id document.path document.text).1

/-- What stays of a snapshot when documents get other texts. -/
structure Frame where
  projects : List Project
  reader : Reader
  places : List (DocumentId × Path)

def frame (solution : Solution) : Frame where
  projects := solution.projects
  reader := solution.reader
  places := solution.documents.map fun document => (document.id, document.path)

/-- A snapshot that differs from another in texts and version at most. -/
structure Variant (base next : Solution) : Prop where
  sound : next.Sound
  frame : next.frame = base.frame

variable {base next solution : Solution} {id : DocumentId} {document : Document} {text : Text}

theorem Variant.refl (h : base.Sound) : Variant base base := ⟨h, rfl⟩

theorem Variant.trans {last : Solution} (h : Variant base next) (h' : Variant next last) :
    Variant base last :=
  ⟨h'.sound, h'.frame.trans h.frame⟩

theorem ids_eq (solution : Solution) : solution.ids = solution.frame.places.map Prod.fst := by
  simp [ids, frame]

theorem Variant.ids_eq (h : Variant base next) : next.ids = base.ids := by
  rw [next.ids_eq, base.ids_eq, h.frame]

theorem Variant.reader_eq (h : Variant base next) : next.reader = base.reader :=
  congrArg Frame.reader h.frame

theorem Variant.withVersion (h : Variant base next) (version : Nat) :
    Variant base { next with version } :=
  ⟨⟨h.sound.nodup, h.sound.parsed⟩, h.frame⟩

theorem document?_eq_none_iff : solution.document? id = none ↔ id ∉ solution.ids := by
  simp [document?, ids]

theorem text?_eq_none_iff : solution.text? id = none ↔ id ∉ solution.ids := by
  rw [text?, Option.map_eq_none_iff, document?_eq_none_iff]

theorem document?_eq_some_iff (h : solution.ids.Nodup) :
    solution.document? id = some document ↔ document ∈ solution.documents ∧ document.id = id := by
  constructor
  · intro hfind
    exact ⟨List.mem_of_find?_eq_some hfind, by simpa using List.find?_some hfind⟩
  · rintro ⟨hmem, rfl⟩
    obtain ⟨found, hfind⟩ : ∃ found, solution.document? document.id = some found := by
      refine Option.ne_none_iff_exists'.mp fun hnone => document?_eq_none_iff.mp hnone ?_
      exact List.mem_map_of_mem hmem
    have hid : found.id = document.id := by simpa using List.find?_some hfind
    have hfound := List.mem_of_find?_eq_some hfind
    rw [hfind, List.inj_on_of_nodup_map h hfound hmem hid]

theorem text?_eq_some_iff (h : solution.ids.Nodup) : solution.text? id = some text ↔
    ∃ document ∈ solution.documents, document.id = id ∧ document.text = text := by
  simp only [text?, Option.map_eq_some_iff, document?_eq_some_iff h, and_assoc]

theorem text?_of_mem (h : solution.ids.Nodup) (hmem : document ∈ solution.documents) :
    solution.text? document.id = some document.text :=
  (text?_eq_some_iff h).mpr ⟨document, hmem, rfl, rfl⟩

theorem eq_of_frame (h : base.Sound) (h' : next.Sound) (hframe : next.frame = base.frame)
    (hversion : next.version = base.version) (htexts : ∀ id, next.text? id = base.text? id) :
    next = base := by
  have hreader : next.reader = base.reader := congrArg Frame.reader hframe
  have hplaces : next.documents.map (fun document => (document.id, document.path)) =
      base.documents.map fun document => (document.id, document.path) :=
    congrArg Frame.places hframe
  have hdocuments : next.documents = base.documents := by
    refine List.ext_getElem (by simpa using congrArg List.length hplaces) fun i hi hi' => ?_
    have hplace := List.getElem_of_eq hplaces (by simpa using hi)
    simp only [List.getElem_map, Prod.mk.injEq] at hplace
    have htext : next.documents[i].text = base.documents[i].text := by
      have hsame := htexts next.documents[i].id
      rw [text?_of_mem h'.nodup (List.getElem_mem hi), hplace.1,
        text?_of_mem h.nodup (List.getElem_mem hi')] at hsame
      exact Option.some.inj hsame
    rw [h'.parsed _ (List.getElem_mem hi), h.parsed _ (List.getElem_mem hi'), hreader, hplace.1,
      hplace.2, htext]
  have hprojects : next.projects = base.projects := congrArg Frame.projects hframe
  cases next
  cases base
  simp only at hversion hprojects hdocuments hreader
  rw [hversion, hprojects, hdocuments, hreader]

theorem setText_of_not_mem (h : id ∉ solution.ids) (text : Text) :
    solution.setText id text = .error (.unknownDocument id) := by
  rw [setText, document?_eq_none_iff.mpr h]

/-- Replaces the documents that have the number of another one by that one. -/
def replacing (updated document : Document) : Document :=
  if document.id = updated.id then updated else document

theorem id_replacing (updated document : Document) : (replacing updated document).id = document.id := by
  rw [replacing]
  split
  · next hsame => exact hsame.symm
  · rfl

theorem document?_replacing (updated : Document) (documents : List Document) (id : DocumentId) :
    (documents.map (replacing updated)).find? (·.id == id) =
      (documents.find? (·.id == id)).map (replacing updated) := by
  rw [List.find?_map]
  congr 2
  funext document
  rw [Function.comp_apply, id_replacing]

theorem exists_setText (h : base.Sound) (hid : id ∈ base.ids) (text : Text) :
    ∃ next notices, base.setText id text = .ok (next, notices) ∧ Variant base next ∧
      next.version = base.version ∧
      ∀ other, next.text? other = if other = id then some text else base.text? other := by
  obtain ⟨current, hcurrent⟩ : ∃ current, base.document? id = some current :=
    Option.ne_none_iff_exists'.mp fun hnone => document?_eq_none_iff.mp hnone hid
  obtain ⟨hmem, rfl⟩ := (document?_eq_some_iff h.nodup).mp hcurrent
  let updated := (current.withText base.reader text).1
  let next := { base with documents := base.documents.map (replacing updated) }
  -- the new document stands in for the old one under the same number and path
  have hplace : ∀ document ∈ base.documents,
      ((replacing updated document).id, (replacing updated document).path) =
        (document.id, document.path) := by
    intro document hdocument
    refine Prod.ext (id_replacing ..) ?_
    rw [replacing]
    split
    · next hsame => exact (List.inj_on_of_nodup_map h.nodup hdocument hmem hsame ▸ rfl)
    · rfl
  have hframe : next.frame = base.frame := by
    simp only [frame, next, List.map_map, Frame.mk.injEq, true_and]
    exact List.map_congr_left hplace
  have hsound : next.Sound := by
    refine ⟨?_, fun document hdocument => ?_⟩
    · rw [next.ids_eq, hframe, ← base.ids_eq]
      exact h.nodup
    · obtain ⟨old, hold, rfl⟩ := List.mem_map.mp hdocument
      rw [replacing]
      split
      · rfl
      · exact h.parsed old hold
  refine ⟨next, (current.withText base.reader text).2, ?_, ⟨hsound, hframe⟩, rfl, fun other => ?_⟩
  · rw [setText, hcurrent]
    rfl
  · rw [text?, document?, document?_replacing, Option.map_map]
    change (base.document? other).map _ = _
    cases hother : base.document? other with
    | none =>
        have hne : other ≠ current.id := by
          rintro rfl
          exact document?_eq_none_iff.mp hother hid
        rw [if_neg hne, text?, hother]
        rfl
    | some document =>
        obtain ⟨-, rfl⟩ := (document?_eq_some_iff h.nodup).mp hother
        rw [text?, hother, Option.map_some, Option.map_some, Function.comp_apply, replacing]
        change some (if document.id = current.id then updated else document).text = _
        split <;> rfl

theorem Variant.of_setText (h : base.Sound) {notices : List Notice}
    (hset : base.setText id text = .ok (next, notices)) :
    Variant base next ∧ next.version = base.version := by
  by_cases hid : id ∈ base.ids
  · obtain ⟨next', notices', hset', hvariant, hversion, -⟩ := exists_setText h hid text
    rw [hset'] at hset
    cases hset
    exact ⟨hvariant, hversion⟩
  · rw [setText_of_not_mem hid] at hset
    cases hset

theorem mem_changedFrom_iff (h : solution.ids.Nodup) : id ∈ solution.changedFrom base ↔
    ∃ text, solution.text? id = some text ∧ base.text? id ≠ some text := by
  simp only [changedFrom, List.mem_map, List.mem_filter, bne_iff_ne, text?_eq_some_iff h]
  constructor
  · rintro ⟨document, ⟨hmem, hne⟩, rfl⟩
    exact ⟨document.text, ⟨document, hmem, rfl, rfl⟩, hne⟩
  · rintro ⟨text, ⟨document, hmem, rfl, rfl⟩, hne⟩
    exact ⟨document, ⟨hmem, hne⟩, rfl⟩

theorem nodup_changedFrom (h : solution.ids.Nodup) (base : Solution) :
    (solution.changedFrom base).Nodup :=
  h.sublist (List.filter_sublist.map Document.id)

theorem changedFrom_eq_nil_iff (h : solution.ids.Nodup) (hids : solution.ids = base.ids) :
    solution.changedFrom base = [] ↔ ∀ id, solution.text? id = base.text? id := by
  rw [List.eq_nil_iff_forall_not_mem]
  simp only [mem_changedFrom_iff h, not_exists, not_and, not_not]
  constructor
  · intro hsame id
    cases htext : solution.text? id with
    | none =>
        rw [text?_eq_none_iff, hids] at htext
        exact (text?_eq_none_iff.mpr htext).symm
    | some text => exact (hsame id text htext).symm
  · intro hsame id text htext
    rw [← hsame, htext]

end Solution

end CSharpTidy
