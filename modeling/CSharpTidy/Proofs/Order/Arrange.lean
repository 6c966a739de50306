import CSharpTidy.Rule.DirectiveOrder
import CSharpTidy.Proofs.Tree.Moved

/-!
# The order a scope is put into

The fix of one scope is read here as a list: `arranged` gives the directive that comes to stand in each
slot, and the edits swap it in. A scope is settled where the rule has nothing to swap, and stays so in
any text that keeps its directives and the preprocessor lines between them.
-/

namespace CSharpTidy

namespace OrderPolicy

variable {policy : OrderPolicy} {first second third : ScopeDirective}

theorem isLE_compareNames_externalFirst_iff {prefixes : List Text} {first second : Text} :
    ((externalFirst prefixes).compareNames first second).isLE = true ↔
      leads prefixes first = true ∧ leads prefixes second = false ∨
        leads prefixes first = leads prefixes second ∧ (compare first second).isLE = true := by
  rw [compareNames]
  cases leads prefixes first <;> cases leads prefixes second <;> simp

/-- An order in which a flag comes first, and another order only after it, is transitive if that is. -/
theorem flagged_trans {flag flag' flag'' : Bool} {le le' le'' : Prop} (htrans : le → le' → le'')
    (h : flag = true ∧ flag' = false ∨ flag = flag' ∧ le)
    (h' : flag' = true ∧ flag'' = false ∨ flag' = flag'' ∧ le') :
    flag = true ∧ flag'' = false ∨ flag = flag'' ∧ le'' := by
  rcases h with ⟨hfirst, hsecond⟩ | ⟨hsame, hle⟩
  · rcases h' with ⟨-, hthird⟩ | ⟨hsame', -⟩
    · exact .inl ⟨hfirst, hthird⟩
    · exact .inl ⟨hfirst, hsame' ▸ hsecond⟩
  · rcases h' with ⟨hsecond', hthird⟩ | ⟨hsame', hle'⟩
    · exact .inl ⟨hsame.trans hsecond', hthird⟩
    · exact .inr ⟨hsame.trans hsame', htrans hle hle'⟩

theorem isLE_compareNames_trans {first second third : Text}
    (h : (policy.compareNames first second).isLE = true)
    (h' : (policy.compareNames second third).isLE = true) :
    (policy.compareNames first third).isLE = true := by
  cases policy with
  | alphabetical => exact Std.TransOrd.isLE_trans h h'
  | externalFirst prefixes =>
      rw [isLE_compareNames_externalFirst_iff] at h h' ⊢
      exact flagged_trans Std.TransOrd.isLE_trans h h'

theorem isLE_compare_total (first second : Text) :
    (compare first second).isLE = true ∨ (compare second first).isLE = true := by
  rw [Std.OrientedOrd.eq_swap (a := second)]
  cases compare first second <;> decide

theorem isLE_compareNames_total (policy : OrderPolicy) (first second : Text) :
    (policy.compareNames first second).isLE = true ∨
      (policy.compareNames second first).isLE = true := by
  cases policy with
  | alphabetical => exact isLE_compare_total first second
  | externalFirst prefixes =>
      rw [isLE_compareNames_externalFirst_iff, isLE_compareNames_externalFirst_iff]
      cases leads prefixes first <;> cases leads prefixes second <;>
        simp [isLE_compare_total first second]

theorem sortsBefore_iff :
    policy.sortsBefore first second = true ↔
      first.isGlobal = true ∧ second.isGlobal = false ∨
        first.isGlobal = second.isGlobal ∧
          (policy.compareDirectives first second).isLE = true := by
  rw [sortsBefore]
  cases first.isGlobal <;> cases second.isGlobal <;> simp

theorem sortsBefore_trans (first second third : ScopeDirective)
    (h : policy.sortsBefore first second = true) (h' : policy.sortsBefore second third = true) :
    policy.sortsBefore first third = true := by
  rw [sortsBefore_iff] at h h' ⊢
  exact flagged_trans isLE_compareNames_trans h h'

theorem sortsBefore_total (first second : ScopeDirective) :
    (policy.sortsBefore first second || policy.sortsBefore second first) = true := by
  rw [Bool.or_eq_true, sortsBefore_iff, sortsBefore_iff]
  have htotal : (policy.compareDirectives first second).isLE = true ∨
      (policy.compareDirectives second first).isLE = true :=
    isLE_compareNames_total policy first.sortKey second.sortKey
  cases first.isGlobal <;> cases second.isGlobal <;> simp [htotal]

/-- Directives between which no order tells a difference. -/
def Same (directive directive' : ScopeDirective) : Prop :=
  directive.sortKey = directive'.sortKey ∧ directive.isGlobal = directive'.isGlobal

theorem sortsBefore_same {first' second' : ScopeDirective} (hfirst : Same first first')
    (hsecond : Same second second') :
    policy.sortsBefore first second = policy.sortsBefore first' second' := by
  rw [sortsBefore, sortsBefore, compareDirectives, compareDirectives, hfirst.1, hfirst.2, hsecond.1,
    hsecond.2]

theorem isSorted_same {directives directives' : List ScopeDirective}
    (h : List.Forall₂ Same directives directives') :
    policy.isSorted directives = policy.isSorted directives' := by
  induction h with
  | nil => rfl
  | cons hfirst hrest ih =>
      cases hrest with
      | nil => rfl
      | cons hsecond hrest =>
          rw [isSorted, isSorted, ih, compareDirectives, compareDirectives, hfirst.1, hsecond.1]

theorem pairwise_sortsBefore_same {directives directives' : List ScopeDirective}
    (h : List.Forall₂ Same directives directives')
    (hpairwise : directives.Pairwise fun first second => policy.sortsBefore first second = true) :
    directives'.Pairwise fun first second => policy.sortsBefore first second = true := by
  induction h with
  | nil => exact .nil
  | @cons first first' rest rest' hfirst hrest ih =>
      obtain ⟨hbefore, hrest'⟩ := List.pairwise_cons.mp hpairwise
      refine List.pairwise_cons.mpr ⟨fun second' hmem => ?_, ih hrest'⟩
      clear ih hpairwise hrest'
      induction hrest with
      | nil => cases hmem
      | @cons second second'' rest rest' hsecond _ ih =>
          rcases List.mem_cons.mp hmem with rfl | hmem
          · rw [← sortsBefore_same hfirst hsecond]
            exact hbefore second List.mem_cons_self
          · exact ih (fun later hlater => hbefore later (List.mem_cons_of_mem _ hlater)) hmem

end OrderPolicy

namespace DirectiveOrder

open List (Forall₂)
open OrderPolicy (Same)

variable {policy : OrderPolicy} {text text' : Text} {directives directives' : List ScopeDirective}

/-- The directives of a scope in the order in which the fix puts them. -/
def arranged (policy : OrderPolicy) (text : Text) (directives : List ScopeDirective) :
    List ScopeDirective :=
  if policy.isSorted directives then directives
  else (regions text directives).flatMap fun region => region.mergeSort policy.sortsBefore

/-- The edits that put one directive after another into slots. -/
def swaps (text : Text) (slots sources : List ScopeDirective) : List Edit :=
  (slots.zip sources).filterMap fun (slot, source) =>
    if slot.span = source.span then none else some ⟨slot.span, source.span.slice text⟩

theorem swaps_cons (text : Text) (slot source : ScopeDirective) (slots sources : List ScopeDirective) :
    swaps text (slot :: slots) (source :: sources) =
      if slot.span = source.span then swaps text slots sources
      else ⟨slot.span, source.span.slice text⟩ :: swaps text slots sources := by
  by_cases hsame : slot.span = source.span <;> simp [swaps, hsame]

theorem swaps_self (text : Text) (directives : List ScopeDirective) :
    swaps text directives directives = [] := by
  induction directives with
  | nil => rfl
  | cons directive directives ih => rw [swaps_cons, if_pos rfl, ih]

theorem swaps_append {slots sources : List ScopeDirective} (h : slots.length = sources.length)
    (slots' sources' : List ScopeDirective) :
    swaps text (slots ++ slots') (sources ++ sources') =
      swaps text slots sources ++ swaps text slots' sources' := by
  rw [swaps, List.zip_append h, List.filterMap_append]
  rfl

theorem regions_flatten (text : Text) (directives : List ScopeDirective) :
    (regions text directives).flatten = directives := by
  fun_induction regions text directives with
  | case1 => rfl
  | case2 => rfl
  | case3 first second rest hnone ih =>
      rw [hnone] at ih
      cases ih
  | case4 first second rest region others hregions hsplit ih =>
      rw [hregions] at ih
      rw [List.flatten_cons, ih]
      rfl
  | case5 first second rest region others hregions hsplit ih =>
      rw [hregions] at ih
      rw [List.flatten_cons, List.cons_append, ← List.flatten_cons, ih]

theorem flatMap_mergeSort_perm (regions : List (List ScopeDirective))
    (before : ScopeDirective → ScopeDirective → Bool) :
    (regions.flatMap fun region => region.mergeSort before).Perm regions.flatten := by
  induction regions with
  | nil => exact .nil
  | cons region regions ih =>
      rw [List.flatMap_cons, List.flatten_cons]
      exact (List.mergeSort_perm region before).append ih

theorem arranged_perm (policy : OrderPolicy) (text : Text) (directives : List ScopeDirective) :
    (arranged policy text directives).Perm directives := by
  unfold arranged
  split
  · exact .refl _
  · have hperm := flatMap_mergeSort_perm (regions text directives) policy.sortsBefore
    rwa [regions_flatten] at hperm

theorem flatMap_regionEdits (policy : OrderPolicy) (text : Text)
    (regions : List (List ScopeDirective)) :
    regions.flatMap (regionEdits policy text) =
      swaps text regions.flatten
        (regions.flatMap fun region => region.mergeSort policy.sortsBefore) := by
  induction regions with
  | nil => rfl
  | cons region regions ih =>
      rw [List.flatMap_cons, List.flatten_cons, List.flatMap_cons,
        swaps_append (List.length_mergeSort region).symm, ih]
      rfl

theorem scopeEdits_eq_swaps (policy : OrderPolicy) (text : Text) (scope : Scope) :
    (if policy.isSorted scope.directives then [] else scopeEdits policy text scope) =
      swaps text scope.directives (arranged policy text scope.directives) := by
  unfold arranged
  split
  · rw [swaps_self]
  · rw [scopeEdits, flatMap_regionEdits, regions_flatten]

/-- What each block of a tree is arranged into, one after another. -/
def arrangedAll (policy : OrderPolicy) (text : Text) (blocks : List (List Directive)) :
    List ScopeDirective :=
  blocks.flatMap fun block => arranged policy text (block.map ScopeDirective.ofDirective)

theorem arrangedAll_perm (policy : OrderPolicy) (text : Text) (blocks : List (List Directive)) :
    (arrangedAll policy text blocks).Perm (blocks.flatten.map ScopeDirective.ofDirective) := by
  induction blocks with
  | nil => exact .nil
  | cons block blocks ih =>
      rw [arrangedAll, List.flatMap_cons, List.flatten_cons, List.map_append]
      exact (arranged_perm policy text _).append ih

theorem edits_eq_flatMap (policy : OrderPolicy) (text : Text) (scopes : List Scope) :
    (scopes.filter fun scope => !policy.isSorted scope.directives).flatMap
        (scopeEdits policy text) =
      (scopes.map Scope.directives).flatMap fun directives =>
        swaps text directives (arranged policy text directives) := by
  induction scopes with
  | nil => rfl
  | cons scope scopes ih =>
      rw [List.map_cons, List.flatMap_cons, ← ih, ← scopeEdits_eq_swaps, List.filter_cons]
      cases policy.isSorted scope.directives <;> simp

/-- The edits of the fix swap, all over the file, what is arranged into the slots there are. -/
theorem edits_eq_swaps (policy : OrderPolicy) (text : Text) (tree : Tree) :
    edits policy text tree =
      swaps text (tree.blocks.flatten.map ScopeDirective.ofDirective)
        (arrangedAll policy text tree.blocks) := by
  rw [edits, disordered, edits_eq_flatMap, tree.scopes_map_directives]
  induction tree.blocks with
  | nil => rfl
  | cons block blocks ih =>
      have hcons : arrangedAll policy text (block :: blocks) =
          arranged policy text (block.map ScopeDirective.ofDirective) ++
            arrangedAll policy text blocks := List.flatMap_cons
      rw [List.map_cons, List.flatMap_cons, ih, List.flatten_cons, List.map_append, hcons,
        swaps_append (arranged_perm policy text _).length_eq.symm]

/-! ## Where nothing is left to swap -/

/-- The rule has nothing to swap: a scope is in order, or each of its regions is. -/
def Settled (policy : OrderPolicy) (text : Text) (directives : List ScopeDirective) : Prop :=
  policy.isSorted directives = true ∨ ∀ region ∈ regions text directives,
    region.Pairwise fun first second => policy.sortsBefore first second = true

theorem Settled.arranged_eq (h : Settled policy text directives) :
    arranged policy text directives = directives := by
  unfold arranged
  split
  · rfl
  · next hsorted =>
      have hregions := h.resolve_left hsorted
      have hfixed : ∀ region ∈ regions text directives,
          region.mergeSort policy.sortsBefore = region :=
        fun region hmem => List.mergeSort_of_pairwise (hregions region hmem)
      rw [List.flatMap_congr hfixed, List.flatMap_id', regions_flatten]

theorem edits_eq_nil {tree : Tree}
    (h : ∀ block ∈ tree.blocks, Settled policy text (block.map ScopeDirective.ofDirective)) :
    edits policy text tree = [] := by
  have harranged : arrangedAll policy text tree.blocks =
      tree.blocks.flatten.map ScopeDirective.ofDirective := by
    rw [arrangedAll, List.flatMap_congr fun block hmem => (h block hmem).arranged_eq,
      List.flatMap_def, List.map_flatten]
  rw [edits_eq_swaps, harranged, swaps_self]

/-- Neighbours are split in one text where their counterparts are split in the other. -/
inductive SplitAlike (text text' : Text) : List ScopeDirective → List ScopeDirective → Prop
  | nil : SplitAlike text text' [] []
  | single {directive directive' : ScopeDirective} :
      SplitAlike text text' [directive] [directive']
  | cons {first first' second second' : ScopeDirective} {rest rest' : List ScopeDirective}
      (hsplit : isSplit text first second = isSplit text' first' second')
      (hrest : SplitAlike text text' (second :: rest) (second' :: rest')) :
      SplitAlike text text' (first :: second :: rest) (first' :: second' :: rest')

theorem SplitAlike.length_eq (h : SplitAlike text text' directives directives') :
    directives.length = directives'.length := by
  induction h with
  | nil => rfl
  | single => rfl
  | cons _ _ ih => exact congrArg Nat.succ ih

theorem exists_first_region (text : Text) (directive : ScopeDirective)
    (rest : List ScopeDirective) :
    ∃ region others, regions text (directive :: rest) = (directive :: region) :: others := by
  cases rest with
  | nil => exact ⟨[], [], rfl⟩
  | cons second rest =>
      rw [regions]
      split
      · exact ⟨[], [], rfl⟩
      · next region others _ =>
          split
          · exact ⟨[], region :: others, rfl⟩
          · exact ⟨region, others, rfl⟩

theorem SplitAlike.regions_length (h : SplitAlike text text' directives directives') :
    Forall₂ (fun region region' => region.length = region'.length) (regions text directives)
      (regions text' directives') := by
  induction h with
  | nil => exact .nil
  | single => exact .cons rfl .nil
  | @cons first first' second second' rest rest' hsplit hrest ih =>
      obtain ⟨region, others, hfound⟩ := exists_first_region text second rest
      obtain ⟨region', others', hfound'⟩ := exists_first_region text' second' rest'
      rw [hfound, hfound'] at ih
      cases ih with
      | cons hlength hothers =>
          rw [regions, regions, hfound, hfound']
          simp only [hsplit]
          split
          · exact .cons rfl (.cons hlength hothers)
          · exact .cons (congrArg Nat.succ hlength) hothers

theorem forall₂_of_flatten {α β : Type} {S : α → β → Prop} {parts : List (List α)}
    {parts' : List (List β)}
    (hlength : Forall₂ (fun part part' => part.length = part'.length) parts parts')
    (h : Forall₂ S parts.flatten parts'.flatten) : Forall₂ (Forall₂ S) parts parts' := by
  induction hlength with
  | nil => exact .nil
  | @cons part part' parts parts' hpart _ ih =>
      rw [List.flatten_cons, List.flatten_cons] at h
      have htake := List.forall₂_take part.length h
      have hdrop := List.forall₂_drop part.length h
      rw [List.take_left] at htake
      rw [List.drop_left] at hdrop
      rw [hpart, List.take_left] at htake
      rw [hpart, List.drop_left] at hdrop
      exact .cons htake (ih hdrop)

variable {S : ScopeDirective → ScopeDirective → Prop}

/-- Lists that correspond are sorted alike where the order does not tell counterparts apart. -/
theorem forall₂_mergeSort (hS : ∀ directive directive', S directive directive' →
      Same directive directive') (h : Forall₂ S directives directives') :
    Forall₂ S (directives.mergeSort policy.sortsBefore)
      (directives'.mergeSort policy.sortsBefore) := by
  obtain ⟨hlength, hpairs⟩ := List.forall₂_iff_zip.mp h
  have hpair : ∀ pair ∈ directives.zip directives', S pair.1 pair.2 :=
    fun pair hmem => hpairs hmem
  -- both lists are read off the pairs, and the pairs are sorted once
  have hfirst : ((directives.zip directives').mergeSort fun pair other =>
      policy.sortsBefore pair.1 other.1).map Prod.fst = directives.mergeSort policy.sortsBefore := by
    rw [List.map_mergeSort (@fun pair _ other _ => (rfl : policy.sortsBefore pair.1 other.1 = _)),
      List.map_fst_zip (Nat.le_of_eq hlength)]
  have hsecond : ((directives.zip directives').mergeSort fun pair other =>
      policy.sortsBefore pair.1 other.1).map Prod.snd = directives'.mergeSort policy.sortsBefore := by
    refine (List.map_mergeSort fun pair hmem other hmem' => OrderPolicy.sortsBefore_same
      (hS _ _ (hpair pair hmem)) (hS _ _ (hpair other hmem'))).trans ?_
    rw [List.map_snd_zip (Nat.le_of_eq hlength.symm)]
  rw [← hfirst, ← hsecond, List.forall₂_map_left_iff, List.forall₂_map_right_iff]
  exact List.forall₂_same.mpr fun pair hmem => hpair pair (List.mem_mergeSort.mp hmem)

theorem forall₂_arranged (hS : ∀ directive directive', S directive directive' →
      Same directive directive') (hsplit : SplitAlike text text' directives directives')
    (h : Forall₂ S directives directives') :
    Forall₂ S (arranged policy text directives) (arranged policy text' directives') := by
  unfold arranged
  rw [OrderPolicy.isSorted_same (h.imp hS)]
  split
  · exact h
  · have hregions : Forall₂ (Forall₂ S) (regions text directives) (regions text' directives') :=
      forall₂_of_flatten hsplit.regions_length (by rwa [regions_flatten, regions_flatten])
    rw [List.flatMap_def, List.flatMap_def]
    refine List.rel_flatten ?_
    rw [List.forall₂_map_left_iff, List.forall₂_map_right_iff]
    exact hregions.imp fun _ _ => forall₂_mergeSort hS

theorem forall₂_arrangedAll {blocks blocks' : List (List Directive)}
    (hS : ∀ directive directive', S directive directive' → Same directive directive')
    (hsplit : Forall₂ (fun block block' => SplitAlike text text'
      (block.map ScopeDirective.ofDirective) (block'.map ScopeDirective.ofDirective)) blocks blocks')
    (h : Forall₂ S (blocks.flatten.map ScopeDirective.ofDirective)
      (blocks'.flatten.map ScopeDirective.ofDirective)) :
    Forall₂ S (arrangedAll policy text blocks) (arrangedAll policy text' blocks') := by
  have hlength : Forall₂ (fun part part' : List ScopeDirective => part.length = part'.length)
      (blocks.map (List.map ScopeDirective.ofDirective))
      (blocks'.map (List.map ScopeDirective.ofDirective)) := by
    rw [List.forall₂_map_left_iff, List.forall₂_map_right_iff]
    exact hsplit.imp fun _ _ hblock => hblock.length_eq
  rw [List.map_flatten, List.map_flatten] at h
  have hblocks := forall₂_of_flatten hlength h
  rw [List.forall₂_map_left_iff, List.forall₂_map_right_iff] at hblocks
  rw [arrangedAll, arrangedAll, List.flatMap_def, List.flatMap_def]
  refine List.rel_flatten ?_
  rw [List.forall₂_map_left_iff, List.forall₂_map_right_iff]
  exact List.Forall₂.mp (fun _ _ hblock => forall₂_arranged hS hblock) hsplit hblocks

theorem pairwise_of_regions {arrangement : List (List ScopeDirective)}
    (hlength : Forall₂ (fun region region' => region.length = region'.length) arrangement
      (regions text' directives'))
    (hsame : Forall₂ Same arrangement.flatten directives')
    (harrangement : ∀ region ∈ arrangement,
      region.Pairwise fun first second => policy.sortsBefore first second = true) :
    ∀ region ∈ regions text' directives',
      region.Pairwise fun first second => policy.sortsBefore first second = true := by
  rw [← regions_flatten text' directives'] at hsame
  intro region' hmem
  obtain ⟨region, hregion, hmoved⟩ :=
    Read.exists_of_mem_forall₂ (forall₂_of_flatten hlength hsame).flip hmem
  exact OrderPolicy.pairwise_sortsBefore_same hmoved (harrangement region hregion)

/-- The fix settles a scope. -/
theorem settled_of_arranged (hsplit : SplitAlike text text' directives directives')
    (hsame : Forall₂ Same (arranged policy text directives) directives') :
    Settled policy text' directives' := by
  unfold arranged at hsame
  split at hsame
  · next hsorted =>
      left
      rw [← OrderPolicy.isSorted_same hsame, hsorted]
  · right
    rw [List.flatMap_def] at hsame
    refine pairwise_of_regions ?_ hsame ?_
    · rw [List.forall₂_map_left_iff]
      exact hsplit.regions_length.imp fun region region' hlength => by
        rw [List.length_mergeSort, hlength]
    · intro sorted hmem
      obtain ⟨region, -, rfl⟩ := List.mem_map.mp hmem
      exact List.pairwise_mergeSort OrderPolicy.sortsBefore_trans OrderPolicy.sortsBefore_total
        region

theorem Settled.congr (h : Settled policy text directives)
    (hsplit : SplitAlike text text' directives directives')
    (hsame : Forall₂ Same directives directives') : Settled policy text' directives' :=
  settled_of_arranged hsplit (h.arranged_eq.symm ▸ hsame)

/-- In a settled scope that is out of order, two neighbours are split or only one of them is
global. -/
theorem Settled.exists_of_not_isSorted (h : Settled policy text directives)
    (hsorted : policy.isSorted directives = false) :
    ∃ before first second after, directives = before ++ first :: second :: after ∧
      (isSplit text first second = true ∨ first.isGlobal = true ∧ second.isGlobal = false) := by
  have hregions := h.resolve_left (by simp [hsorted])
  clear h
  fun_induction regions text directives with
  | case1 => cases hsorted
  | case2 => cases hsorted
  | case3 first second rest hnone _ =>
      obtain ⟨region, others, hfound⟩ := exists_first_region text second rest
      rw [hnone] at hfound
      cases hfound
  | case4 first second rest region others hfound hsplit _ =>
      exact ⟨[], first, second, rest, rfl, .inl hsplit⟩
  | case5 first second rest region others hfound hsplit ih =>
      rw [OrderPolicy.isSorted, Bool.and_eq_false_iff] at hsorted
      rcases hsorted with hgreater | hsorted
      · -- both stand in one region, so the first may stand before the second
        obtain ⟨region', others', hfound'⟩ := exists_first_region text second rest
        obtain ⟨rfl, rfl⟩ := List.cons.inj (hfound.symm.trans hfound')
        have hpairwise := hregions (first :: second :: region') List.mem_cons_self
        have hbefore := (List.pairwise_cons.mp hpairwise).1 second List.mem_cons_self
        refine ⟨[], first, second, rest, rfl, .inr ?_⟩
        rw [OrderPolicy.sortsBefore_iff, hgreater] at hbefore
        simpa using hbefore
      · rw [hfound] at ih
        obtain ⟨before, first', second', after, hcut, hreason⟩ := ih hsorted (by
          intro region' hmem
          rcases List.mem_cons.mp hmem with rfl | hmem
          · exact (List.pairwise_cons.mp (hregions _ List.mem_cons_self)).2
          · exact hregions region' (List.mem_cons_of_mem _ hmem))
        exact ⟨first :: before, first', second', after, by rw [hcut]; rfl, hreason⟩

end DirectiveOrder

end CSharpTidy
