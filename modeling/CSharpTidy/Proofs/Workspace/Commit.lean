import Mathlib.Data.List.Pairwise
import CSharpTidy.Proofs.Workspace.Staging

/-!
# What a commit can do

A proposed snapshot is turned away, refused by the store, or becomes the live one with the version
counted up. Only what differs from the live snapshot is written, so a store in memory that held the old
texts holds the new ones afterwards.
-/

namespace CSharpTidy

open Solution (Variant)

/-- A store that could not write everything has written nothing. -/
def Store.AllOrNothing (σ : Type) [Store σ] : Prop :=
  ∀ (store : σ) (writes : List FileChange) (fault : Fault) (next : σ),
    Store.writeAll store writes = (.error fault, next) → next = store

namespace MapStore

variable {store : MapStore} {writes : List FileChange}

theorem writeAll_of_fails (h : store.failWrites = true) (writes : List FileChange) :
    ∃ fault, Store.writeAll store writes = (.error fault, store) :=
  ⟨_, if_pos h⟩

theorem writeAll_of_accepts (h : store.failWrites = false) (writes : List FileChange) :
    Store.writeAll store writes =
      (.ok (), { store with
        files := store.files.insertMany (writes.map fun write => (write.path, write.text)) }) := by
  have hfold : ∀ store : MapStore,
      writes.foldl (fun store write => store.insert write.path write.text) store =
        { store with
          files := store.files.insertMany (writes.map fun write => (write.path, write.text)) } := by
    induction writes with
    | nil => exact fun store => rfl
    | cons write writes ih => exact fun store => ih (store.insert write.path write.text)
  change writeAll store writes = _
  rw [writeAll, if_neg (by simp [h]), hfold]

theorem eq_of_writeAll_error {fault : Fault} {next : MapStore}
    (h : Store.writeAll store writes = (.error fault, next)) :
    store.failWrites = true ∧ next = store := by
  rcases Bool.eq_false_or_eq_true store.failWrites with hfails | hfails
  · obtain ⟨fault', hfault⟩ := writeAll_of_fails hfails writes
    rw [hfault] at h
    exact ⟨hfails, (Prod.mk.inj h).2.symm⟩
  · rw [writeAll_of_accepts hfails] at h
    cases h

theorem eq_of_writeAll_ok {next : MapStore} (h : Store.writeAll store writes = (.ok (), next)) :
    store.failWrites = false ∧ next =
      { store with
        files := store.files.insertMany (writes.map fun write => (write.path, write.text)) } := by
  rcases Bool.eq_false_or_eq_true store.failWrites with hfails | hfails
  · obtain ⟨fault, hfault⟩ := writeAll_of_fails hfails writes
    rw [hfault] at h
    cases h
  · rw [writeAll_of_accepts hfails] at h
    exact ⟨hfails, (Prod.mk.inj h).2.symm⟩

theorem allOrNothing : Store.AllOrNothing MapStore :=
  fun _ _ _ _ hwrite => (eq_of_writeAll_error hwrite).2

end MapStore

def Solution.Frame.PathsApart (frame : Solution.Frame) : Prop :=
  frame.places.Pairwise fun first second => compare first.2 second.2 ≠ .eq

namespace Workspace

variable {live proposed : Solution} {document : Document} {change : FileChange}

theorem fileChanges_eq (h : proposed.Sound) (live : Solution) :
    fileChanges live proposed =
      (proposed.documents.filter fun document => live.text? document.id != some document.text).map
        fun document => ⟨document.path, (live.text? document.id).getD [], document.text⟩ := by
  rw [fileChanges, Solution.changedFrom, List.filterMap_map, ← List.filterMap_eq_map]
  refine List.filterMap_congr fun document hmem => ?_
  have hfound : proposed.document? document.id = some document :=
    (Solution.document?_eq_some_iff h.nodup).mpr ⟨List.mem_of_mem_filter hmem, rfl⟩
  rw [Function.comp_apply, hfound]
  rfl

def written (live proposed : Solution) : List (Path × Text) :=
  (fileChanges live proposed).map fun change => (change.path, change.text)

theorem mem_written_iff (h : proposed.Sound) {path : Path} {text : Text} :
    (path, text) ∈ written live proposed ↔
      ∃ document ∈ proposed.documents,
        document.path = path ∧ document.text = text ∧ live.text? document.id ≠ some text := by
  simp only [written, fileChanges_eq h, List.map_map, List.mem_map, List.mem_filter,
    Function.comp_apply, bne_iff_ne, Prod.mk.injEq]
  constructor
  · rintro ⟨document, ⟨hmem, hne⟩, rfl, rfl⟩
    exact ⟨document, hmem, rfl, rfl, hne⟩
  · rintro ⟨document, hmem, rfl, rfl, hne⟩
    exact ⟨document, ⟨hmem, hne⟩, rfl, rfl⟩

theorem pairwise_path (hapart : proposed.frame.PathsApart) :
    proposed.documents.Pairwise fun first second => compare first.path second.path ≠ .eq :=
  List.pairwise_map.mp hapart

theorem eq_of_compare_path (hapart : proposed.frame.PathsApart) {other : Document}
    (hmem : document ∈ proposed.documents) (hother : other ∈ proposed.documents)
    (heq : compare document.path other.path = .eq) : other = document := by
  by_contra hdiffer
  have : Std.Symm fun first second : Document => compare first.path second.path ≠ .eq :=
    ⟨fun first second hne heq => hne (Std.OrientedCmp.eq_symm heq)⟩
  exact (pairwise_path hapart).forall hmem hother (Ne.symm hdiffer) heq

theorem pairwise_written (h : proposed.Sound) (hapart : proposed.frame.PathsApart)
    (live : Solution) :
    (written live proposed).Pairwise fun first second => compare first.1 second.1 ≠ .eq := by
  rw [written, fileChanges_eq h, List.map_map]
  exact List.pairwise_map.mpr ((pairwise_path hapart).filter _)

theorem get?_insertMany_written (files : SortedMap Path Text) (live : Solution)
    (h : proposed.Sound) (hapart : proposed.frame.PathsApart)
    {id : DocumentId} {path : Path} (hplace : (id, path) ∈ proposed.frame.places) :
    (files.insertMany (written live proposed)).get? path =
      if live.text? id = proposed.text? id then files.get? path else proposed.text? id := by
  obtain ⟨document, hmem, hdocument⟩ := List.mem_map.mp hplace
  obtain ⟨rfl, rfl⟩ := Prod.mk.inj hdocument
  rw [Solution.text?_of_mem h.nodup hmem]
  split
  · next hsame =>
      refine SortedMap.get?_insertMany_of_forall_ne ?_
      rintro ⟨path, text⟩ hwritten heq
      obtain ⟨other, hother, rfl, rfl, hne⟩ := (mem_written_iff h).mp hwritten
      obtain rfl := eq_of_compare_path hapart hmem hother heq
      exact hne hsame
  · next hne =>
      exact SortedMap.get?_insertMany_of_mem (pairwise_written h hapart live)
        ((mem_written_iff h).mpr ⟨document, hmem, rfl, rfl, hne⟩) Std.ReflCmp.compare_self

theorem get?_insertMany_written_of_ne (files : SortedMap Path Text) (h : proposed.Sound) {path : Path}
    (hpath : ∀ place ∈ proposed.frame.places, compare path place.2 ≠ .eq) :
    (files.insertMany (written live proposed)).get? path = files.get? path := by
  refine SortedMap.get?_insertMany_of_forall_ne ?_
  rintro ⟨other, text⟩ hwritten
  obtain ⟨document, hmem, rfl, -, -⟩ := (mem_written_iff h).mp hwritten
  exact hpath (document.id, document.path) (List.mem_map.mpr ⟨document, hmem, rfl⟩)

variable {σ : Type} [Store σ] {workspace : Workspace σ} {staged : Staging} {changes : Changes}
  {base : Solution}

theorem accept_cases (workspace : Workspace σ) (proposed : Solution) :
    (proposed.version ≠ workspace.live.version ∧
        workspace.accept proposed = (.ok false, workspace)) ∨
      proposed.version = workspace.live.version ∧
        ((∃ fault store,
            Store.writeAll workspace.store (fileChanges workspace.live proposed) =
              (.error fault, store) ∧
            workspace.accept proposed = (.error fault, { workspace with store })) ∨
          ∃ store,
            Store.writeAll workspace.store (fileChanges workspace.live proposed) =
              (.ok (), store) ∧
            workspace.accept proposed =
              (.ok true, ⟨{ proposed with version := workspace.live.version + 1 }, store⟩)) := by
  by_cases hversion : proposed.version = workspace.live.version
  · refine .inr ⟨hversion, ?_⟩
    rw [accept, if_neg (not_not_intro hversion)]
    rcases Store.writeAll workspace.store (fileChanges workspace.live proposed) with
      ⟨fault | _, store⟩
    · exact .inl ⟨fault, store, rfl, rfl⟩
    · exact .inr ⟨store, rfl, rfl⟩
  · exact .inl ⟨hversion, if_pos hversion⟩

theorem commit_cases (workspace : Workspace σ) (staged : Staging) :
    (staged.changed = [] ∧
        workspace.commit staged = (.ok ⟨workspace.live.version, []⟩, workspace)) ∨
      staged.changed ≠ [] ∧
        (((workspace.accept staged.solution).1 = .ok true ∧
            workspace.commit staged =
              (.ok ⟨(workspace.accept staged.solution).2.live.version, staged.changed⟩,
                (workspace.accept staged.solution).2)) ∨
          (workspace.accept staged.solution).1 ≠ .ok true ∧
            ∃ reason, workspace.commit staged =
              (.error (.commitRejected reason), (workspace.accept staged.solution).2)) := by
  by_cases hchanged : staged.changed = []
  · refine .inl ⟨hchanged, ?_⟩
    rw [commit, hchanged]
    rfl
  · refine .inr ⟨hchanged, ?_⟩
    rw [commit, if_neg (by simpa using hchanged)]
    rcases workspace.accept staged.solution with ⟨fault | accepted, next⟩
    · exact .inr ⟨by simp, _, rfl⟩
    · cases accepted with
      | true => exact .inl ⟨rfl, rfl⟩
      | false => exact .inr ⟨by simp, _, rfl⟩

end Workspace

end CSharpTidy
