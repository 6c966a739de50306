import CSharpTidy.Proofs.Workspace.Snapshot

/-!
# Staging

Changes are put into a snapshot one after another, and the first unknown document ends that. When all
documents are known, the staged snapshot is a variant of the first with the proposed texts in it.
-/

namespace CSharpTidy

open Solution (Variant)

variable {base : Solution} {changes : Changes}

structure Staged (base : Solution) (changes : Changes) (staged : Staging) : Prop where
  variant : base.Variant staged.solution
  version : staged.solution.version = base.version
  changed : staged.changed = (changes.effective base).keys
  texts : ∀ id, staged.solution.text? id = (changes.get? id).or (base.text? id)

namespace Staging

variable {entries : List (DocumentId × Text)}

theorem exists_apply (staged : Staging) (h : staged.solution.Sound)
    (hknown : ∀ entry ∈ entries, entry.1 ∈ staged.solution.ids)
    (hnodup : (entries.map Prod.fst).Nodup) :
    ∃ next, staged.apply entries = .ok next ∧ staged.solution.Variant next.solution ∧
      next.solution.version = staged.solution.version ∧
      next.changed = staged.changed ++ entries.map Prod.fst ∧
      ∀ id, next.solution.text? id =
        ((⟨entries⟩ : Changes).get? id).or (staged.solution.text? id) := by
  induction entries generalizing staged with
  | nil => exact ⟨staged, rfl, .refl h, rfl, (List.append_nil _).symm, fun _ => rfl⟩
  | cons entry entries ih =>
      obtain ⟨id, text⟩ := entry
      obtain ⟨hid, hknown⟩ := List.forall_mem_cons.mp hknown
      obtain ⟨hfresh, hnodup⟩ := List.nodup_cons.mp hnodup
      obtain ⟨solution, notices, hset, hvariant, hversion, htexts⟩ :=
        Solution.exists_setText h hid text
      rw [← hvariant.ids_eq] at hknown
      obtain ⟨next, happly, hvariant', hversion', hchanged, htexts'⟩ :=
        ih ⟨solution, staged.changed ++ [id], staged.notices ++ notices⟩
          hvariant.sound hknown hnodup
      refine ⟨next, ?_, hvariant.trans hvariant', hversion'.trans hversion, ?_, fun other => ?_⟩
      · rw [apply, hset]
        exact happly
      · rw [hchanged, List.append_assoc]
        rfl
      · simp only [htexts', htexts, SortedMap.get?_cons, Std.compare_eq_iff_eq]
        split
        · next hsame =>
            rw [SortedMap.get?_eq_none_of_not_mem (hsame ▸ hfresh)]
            rfl
        · rfl

theorem variant_of_apply (staged : Staging) {next : Staging} (h : staged.solution.Sound)
    (happly : staged.apply entries = .ok next) :
    staged.solution.Variant next.solution ∧ next.solution.version = staged.solution.version := by
  induction entries generalizing staged with
  | nil =>
      obtain rfl := Except.ok.inj happly
      exact ⟨.refl h, rfl⟩
  | cons entry entries ih =>
      rw [apply] at happly
      split at happly
      · cases happly
      · next solution notices hset =>
          obtain ⟨hvariant, hversion⟩ := Variant.of_setText h hset
          obtain ⟨hvariant', hversion'⟩ := ih _ hvariant.sound happly
          exact ⟨hvariant.trans hvariant', hversion'.trans hversion⟩

theorem apply_of_unknown (staged : Staging) (h : staged.solution.Sound)
    (hunknown : ∃ entry ∈ entries, entry.1 ∉ staged.solution.ids) :
    ∃ id ∉ staged.solution.ids, staged.apply entries = .error (.unknownDocument id) := by
  induction entries generalizing staged with
  | nil =>
      obtain ⟨entry, hmem, _⟩ := hunknown
      cases hmem
  | cons entry entries ih =>
      obtain ⟨id, text⟩ := entry
      by_cases hid : id ∈ staged.solution.ids
      · obtain ⟨solution, notices, hset, hvariant, -, -⟩ := Solution.exists_setText h hid text
        have hlater : ∃ entry ∈ entries, entry.1 ∉ solution.ids := by
          obtain ⟨entry, hmem, hentry⟩ := hunknown
          rw [hvariant.ids_eq]
          rcases List.mem_cons.mp hmem with rfl | hmem
          · exact absurd hid hentry
          · exact ⟨entry, hmem, hentry⟩
        obtain ⟨other, hother, happly⟩ :=
          ih ⟨solution, staged.changed ++ [id], staged.notices ++ notices⟩
            hvariant.sound hlater
        refine ⟨other, hvariant.ids_eq ▸ hother, ?_⟩
        rw [apply, hset]
        exact happly
      · refine ⟨id, hid, ?_⟩
        rw [apply, Solution.setText_of_not_mem hid]

end Staging

theorem variant_of_stage {staged : Staging} (h : base.Sound)
    (hstage : stage base changes = .ok staged) :
    base.Variant staged.solution ∧ staged.solution.version = base.version :=
  Staging.variant_of_apply ⟨base, [], []⟩ h hstage

theorem Changes.ordered_effective (h : changes.Ordered) (base : Solution) :
    (changes.effective base).Ordered :=
  h.filter _

theorem Changes.get?_effective (h : changes.Ordered) (base : Solution) (id : DocumentId) :
    (changes.effective base).get? id =
      (changes.get? id).filter fun text => base.text? id != some text :=
  h.get?_filter _

theorem Changes.effective_eq_self (h : changes.Ordered)
    (hnew : ∀ id text, changes.get? id = some text → base.text? id ≠ some text) :
    changes.effective base = changes :=
  h.filter_eq_self fun id text hget => bne_iff_ne.mpr (hnew id text hget)

theorem Changes.get?_effective_or (h : changes.Ordered) (base : Solution) (id : DocumentId) :
    ((changes.effective base).get? id).or (base.text? id) = (changes.get? id).or (base.text? id) := by
  rw [Changes.get?_effective h]
  cases changes.get? id with
  | none => rfl
  | some text =>
      by_cases hsame : base.text? id = some text <;> simp [Option.filter, hsame]

theorem exists_stage (h : base.Sound) (hchanges : changes.Ordered)
    (hknown : ∀ id text, changes.get? id = some text → id ∈ base.ids) :
    ∃ staged, stage base changes = .ok staged ∧ Staged base changes staged := by
  have hentries : ∀ entry ∈ (changes.effective base).entries, entry.1 ∈ base.ids := by
    intro entry hmem
    exact hknown entry.1 entry.2 (hchanges.mem_entries_iff.mp (List.mem_of_mem_filter hmem))
  obtain ⟨staged, happly, hvariant, hversion, hchanged, htexts⟩ :=
    Staging.exists_apply ⟨base, [], []⟩ h hentries
      (Changes.ordered_effective hchanges base).nodup_keys
  exact ⟨staged, happly, hvariant, hversion, hchanged, fun id =>
    (htexts id).trans (Changes.get?_effective_or hchanges base id)⟩

theorem stage_of_unknown (h : base.Sound) (hchanges : changes.Ordered)
    (hunknown : ∃ id text, changes.get? id = some text ∧ id ∉ base.ids) :
    ∃ id ∉ base.ids, stage base changes = .error (.unknownDocument id) := by
  obtain ⟨id, text, hget, hid⟩ := hunknown
  refine Staging.apply_of_unknown ⟨base, [], []⟩ h ⟨(id, text), ?_, hid⟩
  refine (Changes.ordered_effective hchanges base).mem_entries_iff.mpr ?_
  rw [Changes.get?_effective hchanges]
  simp [hget, Solution.text?_eq_none_iff.mpr hid]

/-- Staging ends in a variant of its base, or at a document the base does not have. -/
theorem stage_cases (h : base.Sound) (hchanges : changes.Ordered) :
    (∃ staged, stage base changes = .ok staged ∧ Staged base changes staged) ∨
      ∃ id ∉ base.ids, stage base changes = .error (.unknownDocument id) := by
  by_cases hunknown : ∃ id text, changes.get? id = some text ∧ id ∉ base.ids
  · exact .inr (stage_of_unknown h hchanges hunknown)
  · refine .inl (exists_stage h hchanges fun id text hget => ?_)
    by_contra hid
    exact hunknown ⟨id, text, hget, hid⟩

end CSharpTidy
