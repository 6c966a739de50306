import CSharpTidy.Proofs.Loading.Complete
import CSharpTidy.Proofs.Workspace.Snapshot

/-!
# Loaded solutions are sound

A draft numbers its documents in the order in which they come and lets the reader make them, so what
loading puts together is a sound snapshot of version zero.
-/

namespace CSharpTidy

namespace Draft

/-- Documents are numbered from zero on, and each is what the reader makes of its text. -/
structure Numbered (reader : Reader) (draft : Draft) : Prop where
  reader_eq : draft.reader = reader
  ids : draft.documents.map Document.id = (List.range draft.documents.length).map DocumentId.mk
  parsed : ∀ document ∈ draft.documents,
    document = (Document.parse reader document.id document.path document.text).1

variable {reader : Reader} {draft : Draft}

theorem numbered_empty (reader : Reader) : Numbered reader { reader } := ⟨rfl, rfl, by simp⟩

theorem Numbered.addProject (h : Numbered reader draft) (name : String) (path : Path) :
    Numbered reader (draft.addProject name path) :=
  ⟨h.reader_eq, h.ids, h.parsed⟩

theorem Numbered.addNotice (h : Numbered reader draft) (notice : Notice) :
    Numbered reader (draft.addNotice notice) :=
  ⟨h.reader_eq, h.ids, h.parsed⟩

theorem Numbered.addDocument (h : Numbered reader draft) (path : Path) (text : Text) :
    Numbered reader (draft.addDocument path text) where
  reader_eq := h.reader_eq
  ids := by
    simp only [Draft.addDocument, List.map_append, List.length_append, List.length_singleton,
      List.range_succ, h.ids]
    rfl
  parsed document hmem := by
    rcases List.mem_append.mp hmem with hold | hnew
    · exact h.parsed document hold
    · rw [List.mem_singleton.mp hnew, ← h.reader_eq]
      rfl

theorem Numbered.sound_build (h : Numbered reader draft) : draft.build.1.Sound where
  nodup := by
    rw [Solution.ids, build, h.ids]
    exact List.nodup_range.map fun _ _ heq => congrArg DocumentId.index heq
  parsed := by
    rw [build, h.reader_eq]
    exact h.parsed

end Draft

namespace Loading

open Draft (Numbered)

variable {loading : Loading} {reader : Reader} {walk : Walk} {tree : FileTree} {target : Path}

theorem numbered_addSource (h : Numbered reader loading.draft) (path : Path) :
    Numbered reader (loading.addSource tree path).draft := by
  rw [addSource]
  split
  · exact h
  · cases tree.read path with
    | ok text => exact h.addDocument path text
    | error fault => exact h.addNotice _

theorem numbered_addProject (h : Numbered reader loading.draft) (path : Path) :
    Numbered reader (loading.addProject walk tree path).draft := by
  rw [addProject]
  cases tree.read path with
  | error fault => exact h.addNotice _
  | ok _ =>
      have hfoldl : ∀ (sources : List Path) (loading : Loading), Numbered reader loading.draft →
          Numbered reader (sources.foldl (addSource tree) loading).draft := by
        intro sources
        induction sources with
        | nil => exact fun _ h => h
        | cons source sources ih => exact fun _ h => ih _ (numbered_addSource h source)
      exact hfoldl _ _ (h.addProject _ path)

theorem Visits.numbered {projects : List Path} {after : Loading}
    (hvisits : Visits walk tree projects loading after) (h : Numbered reader loading.draft) :
    Numbered reader after.draft := by
  induction hvisits with
  | nil => exact h
  | opened _ _ _ ih => exact ih (numbered_addProject h _)
  | refused _ _ ih => exact ih (h.addNotice _)

/-- Whatever is loaded is a sound snapshot of version zero over the reader it was loaded with. -/
theorem sound_of_load {solution : Solution} {notices : List Notice}
    (h : load reader tree target walk = .ok (solution, notices)) :
    solution.Sound ∧ solution.version = 0 ∧ solution.reader = reader := by
  obtain ⟨loading, hvisits, hbuild⟩ := exists_visits_of_load h
  have hnumbered := hvisits.numbered (Draft.numbered_empty reader)
  obtain rfl : loading.draft.build.1 = solution := congrArg Prod.fst hbuild
  exact ⟨hnumbered.sound_build, rfl, hnumbered.reader_eq⟩

end Loading

end CSharpTidy
