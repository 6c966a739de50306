import CSharpTidy.Proofs.Order.Exact
import CSharpTidy.Proofs.Text.Bytes

/-!
# Policies are total orders

Sorting, looking at neighbours only and finding nothing left to sort all rely on one law: whatever
prefixes are configured, a policy orders names totally. It goes by membership under the prefixes first,
which holds of a list of prefixes as of the set of them, and by the bytes of the names second.
-/

namespace CSharpTidy

namespace OrderPolicy

variable {policy : OrderPolicy} {prefixes prefixes' : List Text} {key first second : Text}
  {directives : List ScopeDirective}

/-- A name equals one of the prefixes, or goes on with a dot after it. -/
def Under (prefixes : List Text) (key : Text) : Prop :=
  ∃ start ∈ prefixes, key = start ∨ ∃ rest, key = start ++ '.' :: rest

theorem continues_iff {start : Text} :
    continues key start = true ↔ key = start ∨ ∃ rest, key = start ++ '.' :: rest := by
  rw [continues, Bool.and_eq_true, List.isPrefixOf_iff_prefix]
  constructor
  · rintro ⟨⟨rest, rfl⟩, hrest⟩
    rw [List.drop_left] at hrest
    cases rest with
    | nil => exact .inl (List.append_nil start)
    | cons c rest =>
        obtain rfl : c = '.' := by simpa using hrest
        exact .inr ⟨rest, rfl⟩
  · rintro (rfl | ⟨rest, rfl⟩)
    · exact ⟨List.prefix_rfl, by simp⟩
    · exact ⟨List.prefix_append start _, by simp⟩

theorem leads_iff : leads prefixes key = true ↔ Under prefixes key := by
  rw [leads, List.any_eq_true]
  exact exists_congr fun start => and_congr_right fun _ => continues_iff

theorem leads_congr (h : ∀ start, start ∈ prefixes ↔ start ∈ prefixes') (key : Text) :
    leads prefixes key = leads prefixes' key := by
  rw [Bool.eq_iff_iff, leads_iff, leads_iff]
  exact exists_congr fun start => and_congr_left fun _ => h start

theorem compareNames_congr (h : ∀ start, start ∈ prefixes ↔ start ∈ prefixes') :
    (externalFirst prefixes).compareNames = (externalFirst prefixes').compareNames := by
  funext first second
  rw [compareNames, compareNames, leads_congr h first, leads_congr h second]

theorem compareNames_of_under (hfirst : Under prefixes first) (hsecond : ¬Under prefixes second) :
    (externalFirst prefixes).compareNames first second = .lt := by
  rw [← leads_iff] at hfirst hsecond
  rw [compareNames, hfirst, Bool.eq_false_iff.mpr hsecond]

theorem compareNames_of_under_iff (h : Under prefixes first ↔ Under prefixes second) :
    (externalFirst prefixes).compareNames first second = compare first.toUtf8 second.toUtf8 := by
  rw [← leads_iff, ← leads_iff, ← Bool.eq_iff_iff] at h
  rw [Text.compare_toUtf8, compareNames, h]
  cases leads prefixes second <;> rfl

instance (policy : OrderPolicy) : Std.TransCmp policy.compareNames where
  eq_swap {first second} := by
    have hswap : compare first second = (compare second first).swap := Std.OrientedCmp.eq_swap
    cases policy with
    | alphabetical => exact hswap
    | externalFirst prefixes =>
        rw [compareNames, compareNames]
        cases leads prefixes first <;> cases leads prefixes second <;> first | exact hswap | rfl
  isLE_trans h h' := isLE_compareNames_trans h h'

instance (policy : OrderPolicy) : Std.LawfulEqCmp policy.compareNames where
  compare_self {key} := by
    have hself : compare key key = .eq := Std.ReflCmp.compare_self
    cases policy with
    | alphabetical => exact hself
    | externalFirst prefixes =>
        rw [compareNames]
        cases leads prefixes key <;> exact hself
  eq_of_compare {first second} h := by
    cases policy with
    | alphabetical =>
        have heq : compare first second = .eq := h
        exact Std.LawfulEqCmp.eq_of_compare heq
    | externalFirst prefixes =>
        rw [compareNames] at h
        cases hfirst : leads prefixes first <;> cases hsecond : leads prefixes second <;>
          simp only [hfirst, hsecond, reduceCtorEq] at h <;>
          exact Std.LawfulEqCmp.eq_of_compare h

/-- A stable sort leaves alone just what is sorted. -/
theorem isSorted_iff_mergeSort_eq :
    policy.isSorted directives = true ↔
      directives.mergeSort (fun first second => (policy.compareDirectives first second).isLE) =
        directives := by
  rw [isSorted_iff_pairwise]
  refine ⟨List.mergeSort_of_pairwise, fun h => ?_⟩
  rw [← h]
  refine List.pairwise_mergeSort (fun first second third => ?_) (fun first second => ?_) directives
  · exact isLE_compareNames_trans
  · rw [Bool.or_eq_true]
    exact isLE_compareNames_total policy first.sortKey second.sortKey

/-- What lies under a prefix comes in front of what does not. -/
theorem exists_front_of_isSorted (h : (externalFirst prefixes).isSorted directives = true) :
    ∃ front back, directives = front ++ back ∧
      (∀ directive ∈ front, Under prefixes directive.sortKey) ∧
        ∀ directive ∈ back, ¬Under prefixes directive.sortKey := by
  rw [isSorted_iff_pairwise] at h
  induction directives with
  | nil => exact ⟨[], [], rfl, by simp, by simp⟩
  | cons first rest ih =>
      obtain ⟨hfirst, hrest⟩ := List.pairwise_cons.mp h
      by_cases hunder : leads prefixes first.sortKey = true
      · obtain ⟨front, back, rfl, hfront, hback⟩ := ih hrest
        exact ⟨first :: front, back, rfl, List.forall_mem_cons.mpr ⟨leads_iff.mp hunder, hfront⟩, hback⟩
      · refine ⟨[], first :: rest, rfl, by simp, List.forall_mem_cons.mpr ⟨?_, fun later hmem => ?_⟩⟩
        · rwa [← leads_iff]
        · rw [← leads_iff]
          rcases isLE_compareNames_externalFirst_iff.mp (hfirst later hmem) with ⟨hleads, -⟩ | ⟨hsame, -⟩
          · exact absurd hleads hunder
          · rwa [← hsame]

/-- **Policies are total orders.** Comparing names is reflexive, antisymmetric, transitive and total under
every policy, and tells apart all names that differ. A list is sorted exactly when a stable sort leaves it
alone. The order is that of the bytes of the names, behind whether they lie under a prefix; how often the
prefixes are listed, and in what order, makes no difference. In a sorted list all that lies under a prefix
stands in front of the rest. -/
theorem policy_orders_names (policy : OrderPolicy) (prefixes : List Text) :
    (∀ key, policy.compareNames key key = .eq) ∧
    (∀ first second, policy.compareNames first second = .eq → first = second) ∧
    (∀ first second, policy.compareNames second first = (policy.compareNames first second).swap) ∧
    (∀ first second, (policy.compareNames first second).isLE = true →
      (policy.compareNames second first).isLE = true → first = second) ∧
    (∀ first second third, (policy.compareNames first second).isLE = true →
      (policy.compareNames second third).isLE = true →
        (policy.compareNames first third).isLE = true) ∧
    (∀ first second, (policy.compareNames first second).isLE = true ∨
      (policy.compareNames second first).isLE = true) ∧
    (∀ directives, policy.isSorted directives = true ↔
      directives.mergeSort (fun first second => (policy.compareDirectives first second).isLE) =
        directives) ∧
    (∀ first second, alphabetical.compareNames first second = compare first.toUtf8 second.toUtf8) ∧
    (∀ first second, Under prefixes first → ¬Under prefixes second →
      (externalFirst prefixes).compareNames first second = .lt) ∧
    (∀ first second, (Under prefixes first ↔ Under prefixes second) →
      (externalFirst prefixes).compareNames first second = compare first.toUtf8 second.toUtf8) ∧
    (∀ prefixes', (∀ start, start ∈ prefixes ↔ start ∈ prefixes') →
      (externalFirst prefixes).compareNames = (externalFirst prefixes').compareNames) ∧
    (∀ directives, (externalFirst prefixes).isSorted directives = true →
      ∃ front back, directives = front ++ back ∧
        (∀ directive ∈ front, Under prefixes directive.sortKey) ∧
          ∀ directive ∈ back, ¬Under prefixes directive.sortKey) := by
  refine ⟨fun key => Std.ReflCmp.compare_self, fun first second => Std.LawfulEqCmp.eq_of_compare,
    fun first second => Std.OrientedCmp.eq_swap, fun first second h h' => ?_,
    fun first second third => isLE_compareNames_trans, isLE_compareNames_total policy,
    fun directives => isSorted_iff_mergeSort_eq, fun first second => ?_, fun first second => ?_,
    fun first second hsame => ?_, fun prefixes' h => ?_, fun directives => exists_front_of_isSorted⟩
  · exact Std.LawfulEqCmp.eq_of_compare (Std.OrientedCmp.isLE_antisymm h h')
  · exact (Text.compare_toUtf8 first second).symm
  · exact compareNames_of_under
  · exact compareNames_of_under_iff hsame
  · exact compareNames_congr h

end OrderPolicy

end CSharpTidy
