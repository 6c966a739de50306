import CSharpTidy.Changes

/-!
# Sorted maps as functions

A map is used through what it holds under each key. Insertion changes that under one key, whatever
the order of the entries, and the entries of an ordered map are what it holds.
-/

namespace CSharpTidy

namespace DocumentId

theorem compare_eq_compareOn :
    (compare : DocumentId → DocumentId → Ordering) = compareOn DocumentId.index := by
  funext first second
  exact Ordering.then_eq

instance : Std.TransOrd DocumentId := by
  rw [Std.TransOrd, compare_eq_compareOn]
  infer_instance

instance : Std.LawfulEqOrd DocumentId where
  eq_of_compare {first second} h := by
    rw [compare_eq_compareOn, compareOn, Nat.compare_eq_eq] at h
    cases first
    cases second
    exact congrArg DocumentId.mk h

end DocumentId

namespace Path

namespace Component

/-- The name of a step that has one. -/
def label : Component → Text
  | name text => text
  | _ => []

theorem compare_eq_compareLex : (compare : Component → Component → Ordering) =
    compareLex (compareOn rank) (compareOn label) := by
  funext first second
  cases first <;> cases second <;> rfl

instance : Std.TransOrd Component := by
  rw [Std.TransOrd, compare_eq_compareLex]
  infer_instance

instance : Std.LawfulEqOrd Component where
  eq_of_compare {first second} h := by
    rw [compare_eq_compareLex, compareLex, Ordering.then_eq_eq, compareOn, compareOn,
      Nat.compare_eq_eq] at h
    have hlabel := Std.LawfulEqCmp.eq_of_compare h.2
    cases first <;> cases second <;> simp_all [rank, label]

end Component

instance : Std.TransOrd Path := inferInstanceAs (Std.TransCmp (compareOn Path.components))

end Path

namespace SortedMap

variable {κ ν : Type} [Ord κ]

/-- The keys ascend. -/
def Ordered (map : SortedMap κ ν) : Prop :=
  map.entries.Pairwise fun first second => compare first.1 second.1 = .lt

instance (map : SortedMap κ ν) : Decidable map.Ordered := inferInstanceAs (Decidable (List.Pairwise _ _))

variable {map : SortedMap κ ν} {entries : List (κ × ν)} {key key' : κ} {value : ν}

theorem get?_cons (entry : κ × ν) :
    (⟨entry :: entries⟩ : SortedMap κ ν).get? key =
      if compare key entry.1 = .eq then some entry.2 else (⟨entries⟩ : SortedMap κ ν).get? key := by
  by_cases h : compare key entry.1 = .eq <;> simp [get?, h]

theorem ordered_empty : Ordered (⟨[]⟩ : SortedMap κ ν) := List.Pairwise.nil

theorem Ordered.filter (h : map.Ordered) (test : κ → ν → Bool) : (map.filter test).Ordered :=
  List.Pairwise.filter _ h

section Lawful

variable [Std.LawfulEqOrd κ]

theorem Ordered.mem_entries_iff (h : map.Ordered) :
    (key, value) ∈ map.entries ↔ map.get? key = some value := by
  obtain ⟨entries⟩ := map
  induction entries with
  | nil => exact ⟨(nomatch ·), (nomatch ·)⟩
  | cons entry entries ih =>
      obtain ⟨other, held⟩ := entry
      obtain ⟨hentry, hrest⟩ := List.pairwise_cons.mp h
      rw [get?_cons, List.mem_cons, ih hrest]
      by_cases hkey : compare key other = .eq
      · obtain rfl := Std.LawfulEqCmp.eq_of_compare hkey
        rw [if_pos hkey]
        constructor
        · rintro (hhead | hget)
          · exact congrArg some (Prod.mk.inj hhead).2.symm
          · have hself := hentry _ ((ih hrest).mpr hget)
            exact absurd (hself.symm.trans hkey) (by decide)
        · intro hvalue
          exact .inl (Prod.ext rfl (Option.some.inj hvalue).symm)
      · rw [if_neg hkey]
        refine or_iff_right fun hhead => hkey ?_
        rw [(Prod.mk.inj hhead).1]
        exact Std.ReflCmp.compare_self

theorem Ordered.mem_keys_iff (h : map.Ordered) :
    key ∈ map.keys ↔ ∃ value, map.get? key = some value := by
  simp only [keys, List.mem_map, ← h.mem_entries_iff, Prod.exists, exists_and_right, exists_eq_right]

theorem Ordered.nodup_keys (h : map.Ordered) : map.keys.Nodup := by
  refine List.pairwise_map.mpr (h.imp fun {first second} hlt heq => ?_)
  have hself : compare second.1 second.1 = .eq := Std.ReflCmp.compare_self
  rw [heq, hself] at hlt
  cases hlt

theorem Ordered.get?_filter (h : map.Ordered) (test : κ → ν → Bool) :
    (map.filter test).get? key = (map.get? key).filter (test key) := by
  refine Option.ext fun value => ?_
  rw [← (h.filter test).mem_entries_iff, SortedMap.filter, List.mem_filter, h.mem_entries_iff,
    Option.filter_eq_some_iff]

theorem Ordered.filter_eq_self (h : map.Ordered) {test : κ → ν → Bool}
    (htest : ∀ key value, map.get? key = some value → test key value = true) :
    map.filter test = map := by
  refine congrArg SortedMap.mk (List.filter_eq_self.mpr fun entry hmem => ?_)
  exact htest entry.1 entry.2 (h.mem_entries_iff.mp hmem)

theorem get?_eq_none_of_not_mem (h : key ∉ map.keys) : map.get? key = none := by
  refine Option.map_eq_none_iff.mpr (List.find?_eq_none.mpr fun entry hmem heq => h ?_)
  rw [Std.LawfulEqCmp.eq_of_compare (beq_iff_eq.mp heq)]
  exact List.mem_map_of_mem hmem

end Lawful

section Trans

variable [Std.TransOrd κ]

theorem get?_insertEntry (key : κ) (value : ν) (entries : List (κ × ν)) (key' : κ) :
    (⟨insertEntry key value entries⟩ : SortedMap κ ν).get? key' =
      if compare key' key = .eq then some value else (⟨entries⟩ : SortedMap κ ν).get? key' := by
  induction entries with
  | nil => rw [insertEntry, get?_cons]
  | cons entry entries ih =>
      obtain ⟨other, held⟩ := entry
      rw [insertEntry]
      split
      · rw [get?_cons]
      · next heq =>
          rw [get?_cons, get?_cons, ← Std.TransCmp.congr_right heq]
          split <;> rfl
      · next hgt =>
          rw [get?_cons, ih, get?_cons]
          -- a key that is both would make the inserted key equal to the one it stands behind
          by_cases hother : compare key' other = .eq
          · rw [if_pos hother, if_pos hother, if_neg]
            intro hkey
            rw [Std.TransCmp.congr_left hkey] at hother
            exact absurd (hother.symm.trans hgt) (by decide)
          · rw [if_neg hother, if_neg hother]

theorem get?_insert (map : SortedMap κ ν) (key : κ) (value : ν) (key' : κ) :
    (map.insert key value).get? key' = if compare key' key = .eq then some value else map.get? key' :=
  get?_insertEntry key value map.entries key'

theorem get?_insertMany_of_forall_ne (h : ∀ entry ∈ entries, compare key entry.1 ≠ .eq) :
    (map.insertMany entries).get? key = map.get? key := by
  induction entries generalizing map with
  | nil => rfl
  | cons entry entries ih =>
      have hhead := h entry List.mem_cons_self
      refine (ih fun other hother => h other (List.mem_cons_of_mem _ hother)).trans ?_
      rw [get?_insert, if_neg hhead]

variable [Std.LawfulEqOrd κ] [BEq κ] [LawfulBEq κ] in
/-- Of several entries under one key the last is held. -/
theorem get?_insertMany (map : SortedMap κ ν) (entries : List (κ × ν)) (key : κ) :
    (map.insertMany entries).get? key = (entries.reverse.lookup key).or (map.get? key) := by
  induction entries generalizing map with
  | nil => rfl
  | cons entry entries ih =>
      obtain ⟨other, held⟩ := entry
      refine (ih (map.insert other held)).trans ?_
      rw [List.reverse_cons, List.lookup_append, Option.or_assoc, get?_insert]
      congr 1
      by_cases hkey : key = other
      · rw [hkey, List.lookup_cons_self, if_pos Std.ReflCmp.compare_self]
        rfl
      · rw [List.lookup_cons, beq_false_of_ne hkey, if_neg (mt Std.LawfulEqCmp.eq_of_compare hkey)]
        rfl

/-- Where no two keys of the entries agree, each entry is held at the end. -/
theorem get?_insertMany_of_mem
    (h : entries.Pairwise fun first second => compare first.1 second.1 ≠ .eq)
    (hmem : (key', value) ∈ entries) (hkey : compare key key' = .eq) :
    (map.insertMany entries).get? key = some value := by
  induction entries generalizing map with
  | nil => cases hmem
  | cons entry entries ih =>
      obtain ⟨hentry, hrest⟩ := List.pairwise_cons.mp h
      rcases List.mem_cons.mp hmem with rfl | hmem
      · have hlater : ∀ other ∈ entries, compare key other.1 ≠ .eq := by
          intro other hother
          rw [Std.TransCmp.congr_left hkey]
          exact hentry other hother
        refine (get?_insertMany_of_forall_ne hlater).trans ?_
        exact (get?_insert ..).trans (if_pos hkey)
      · exact ih hrest hmem

omit [Std.TransOrd κ] in
theorem lt_of_mem_insertEntry (hkey : compare key' key = .lt)
    (h : ∀ entry ∈ entries, compare key' entry.1 = .lt) :
    ∀ entry ∈ insertEntry key value entries, compare key' entry.1 = .lt := by
  induction entries with
  | nil => simpa [insertEntry] using hkey
  | cons other entries ih =>
      obtain ⟨hother, hrest⟩ := List.forall_mem_cons.mp h
      rw [insertEntry]
      split
      · exact List.forall_mem_cons.mpr ⟨hkey, h⟩
      · exact List.forall_mem_cons.mpr ⟨hother, hrest⟩
      · exact List.forall_mem_cons.mpr ⟨hother, ih hrest⟩

theorem Ordered.insert (h : map.Ordered) (key : κ) (value : ν) : (map.insert key value).Ordered := by
  obtain ⟨entries⟩ := map
  unfold Ordered SortedMap.insert at *
  simp only at *
  induction entries with
  | nil => exact List.pairwise_singleton ..
  | cons entry entries ih =>
      obtain ⟨hentry, hrest⟩ := List.pairwise_cons.mp h
      rw [insertEntry]
      split
      · next hlt =>
          refine List.pairwise_cons.mpr ⟨List.forall_mem_cons.mpr ⟨hlt, fun other hother => ?_⟩, h⟩
          exact Std.TransCmp.lt_trans hlt (hentry other hother)
      · exact List.pairwise_cons.mpr ⟨hentry, hrest⟩
      · next hgt =>
          exact List.pairwise_cons.mpr
            ⟨lt_of_mem_insertEntry (Std.OrientedCmp.lt_of_gt hgt) hentry, ih hrest⟩

theorem Ordered.insertMany (h : map.Ordered) (entries : List (κ × ν)) :
    (map.insertMany entries).Ordered := by
  induction entries generalizing map with
  | nil => exact h
  | cons entry entries ih => exact ih (h.insert entry.1 entry.2)

variable [Std.LawfulEqOrd κ] in
theorem mem_keys_insertMany (h : map.Ordered) (entries : List (κ × ν)) :
    key ∈ (map.insertMany entries).keys ↔ key ∈ entries.map Prod.fst ∨ key ∈ map.keys := by
  induction entries generalizing map with
  | nil => exact (or_iff_right List.not_mem_nil).symm
  | cons entry entries ih =>
      have hinsert : key ∈ (map.insert entry.1 entry.2).keys ↔ key = entry.1 ∨ key ∈ map.keys := by
        rw [(h.insert _ _).mem_keys_iff, h.mem_keys_iff, get?_insert]
        by_cases hkey : key = entry.1
        · simp [hkey]
        · simp [hkey]
      refine (ih (h.insert entry.1 entry.2)).trans ?_
      rw [hinsert, List.map_cons, List.mem_cons, or_left_comm, or_assoc]

theorem ordered_ofList (entries : List (κ × ν)) : (ofList entries).Ordered :=
  ordered_empty.insertMany entries

variable [Std.LawfulEqOrd κ] in
/-- A map made of entries without repeated keys holds just these. -/
theorem get?_ofList_eq_some_iff (h : (entries.map Prod.fst).Nodup) :
    (ofList entries).get? key = some value ↔ (key, value) ∈ entries := by
  have hapart : entries.Pairwise fun first second => compare first.1 second.1 ≠ .eq :=
    (List.pairwise_map.mp h).imp fun hne heq => hne (Std.LawfulEqCmp.eq_of_compare heq)
  constructor
  · intro hget
    by_cases hkey : ∃ entry ∈ entries, compare key entry.1 = .eq
    · obtain ⟨⟨other, held⟩, hentry, heq⟩ := hkey
      rw [ofList, get?_insertMany_of_mem hapart hentry heq] at hget
      obtain rfl := Std.LawfulEqCmp.eq_of_compare heq
      obtain rfl := Option.some.inj hget
      exact hentry
    · rw [ofList, get?_insertMany_of_forall_ne fun entry hentry heq =>
        hkey ⟨entry, hentry, heq⟩] at hget
      cases hget
  · intro hmem
    exact get?_insertMany_of_mem hapart hmem Std.ReflCmp.compare_self

end Trans

end SortedMap

end CSharpTidy
