import Mathlib.Data.List.Forall2
import CSharpTidy.Text.Basic

/-!
# Lines among sources that change places

A row of sources with gaps between them, as the directives of a file are, has lines in its gaps and
inside its sources. Each line stands behind the sources that have begun before it. When the sources
change places within groups, and lines stand between groups only, no line of a gap is crossed. A line
inside a source is crossed unless its source stays, with the same sources in front of it.
-/

namespace CSharpTidy

open List (Forall₂)

/-- The same lines in the same order, each behind the same sources in any order. -/
def Uncrossed : List (Text × List Text) → List (Text × List Text) → Prop :=
  Forall₂ fun line line' => line.1 = line'.1 ∧ line.2.Perm line'.2

/-- The lines of a row, each with the sources that have begun before it. A row goes on behind some
sources with the lines inside the last of them, and ends with the lines of a tail. -/
def standing (inside : Text → List Text) (tail : List Text) :
    (pending passed : List Text) → (gaps : List (List Text)) → (sources : List Text) →
      List (Text × List Text)
  | pending, passed, gap :: gaps, source :: sources =>
      (pending ++ gap).map (·, passed) ++
        standing inside tail (inside source) (passed ++ [source]) gaps sources
  | pending, passed, _, _ => (pending ++ tail).map (·, passed)

/-- Each source has the lines of its counterpart, and those with lines end rows of the same sources. -/
def Steady (inside : Text → List Text) :
    (passed passed' sources sources' : List Text) → Prop
  | passed, passed', source :: sources, source' :: sources' =>
      inside source = inside source' ∧
        (inside source ≠ [] → (passed ++ [source]).Perm (passed' ++ [source'])) ∧
          Steady inside (passed ++ [source]) (passed' ++ [source']) sources sources'
  | _, _, _, _ => True

/-- Gaps with lines stand behind the same sources. -/
def Clear : (passed passed' : List Text) → (gaps : List (List Text)) →
    (sources sources' : List Text) → Prop
  | passed, passed', gap :: gaps, source :: sources, source' :: sources' =>
      (gap ≠ [] → passed.Perm passed') ∧
        Clear (passed ++ [source]) (passed' ++ [source']) gaps sources sources'
  | _, _, _, _, _ => True

variable {inside : Text → List Text} {tail pending pending' passed passed' : List Text}
  {gaps : List (List Text)} {sources sources' others others' : List Text} {source source' : Text}

/-! ## Lines of a row -/

theorem uncrossed_map_iff {lines lines' : List Text} :
    Uncrossed (lines.map (·, passed)) (lines'.map (·, passed')) ↔
      lines = lines' ∧ (lines ≠ [] → passed.Perm passed') := by
  rw [Uncrossed, List.forall₂_map_left_iff, List.forall₂_map_right_iff]
  constructor
  · intro h
    refine ⟨List.forall₂_eq_eq_eq ▸ h.imp fun _ _ hsame => hsame.1, fun hne => ?_⟩
    cases h with
    | nil => exact absurd rfl hne
    | cons hsame _ => exact hsame.2
  · rintro ⟨rfl, hperm⟩
    exact List.forall₂_same.mpr fun line hmem => ⟨rfl, hperm (List.ne_nil_of_mem hmem)⟩

theorem length_lt_of_mem_standing {line : Text × List Text} {bound : Nat}
    (hmem : line ∈ standing inside tail pending passed gaps sources) (hbound : bound < passed.length) :
    bound < line.2.length := by
  induction sources generalizing pending passed gaps with
  | nil =>
      rw [standing.eq_2 _ _ _ _ _ _ (by simp)] at hmem
      obtain ⟨_, -, rfl⟩ := List.mem_map.mp hmem
      exact hbound
  | cons source sources ih =>
      cases gaps with
      | nil =>
          rw [standing.eq_2 _ _ _ _ _ _ (by simp)] at hmem
          obtain ⟨_, -, rfl⟩ := List.mem_map.mp hmem
          exact hbound
      | cons gap gaps =>
          rw [standing, List.mem_append] at hmem
          rcases hmem with hmem | hmem
          · obtain ⟨_, -, rfl⟩ := List.mem_map.mp hmem
            exact hbound
          · refine ih hmem ?_
            rw [List.length_append]
            omega

/-- Lines that stand behind fewer sources than the others are told from them. -/
theorem uncrossed_append_iff {lines lines' : List Text} {rest rest' : List (Text × List Text)}
    (hlength : passed.length = passed'.length) (hrest : ∀ line ∈ rest, passed.length < line.2.length)
    (hrest' : ∀ line ∈ rest', passed.length < line.2.length) :
    Uncrossed (lines.map (·, passed) ++ rest) (lines'.map (·, passed') ++ rest') ↔
      Uncrossed (lines.map (·, passed)) (lines'.map (·, passed')) ∧ Uncrossed rest rest' := by
  constructor
  · intro h
    induction lines generalizing lines' with
    | nil =>
        cases lines' with
        | nil => exact ⟨.nil, h⟩
        | cons line' lines' =>
            cases h with
            | @cons line _ rest _ hsame _ =>
                have hlt := hrest line List.mem_cons_self
                have hperm : line.2.length = passed'.length := hsame.2.length_eq
                omega
    | cons line lines ih =>
        cases lines' with
        | nil =>
            cases h with
            | @cons _ line' _ rest' hsame _ =>
                have hlt := hrest' line' List.mem_cons_self
                have hperm : passed.length = line'.2.length := hsame.2.length_eq
                omega
        | cons line' lines' =>
            cases h with
            | cons hsame hlines =>
                obtain ⟨hfront, hback⟩ := ih hlines
                exact ⟨.cons hsame hfront, hback⟩
  · rintro ⟨hfront, hback⟩
    exact List.rel_append hfront hback

/-- **Which rows leave their lines uncrossed.** -/
theorem uncrossed_standing_iff (hclear : Clear passed passed' gaps sources sources')
    (hgaps : gaps.length = sources.length) (hsources : sources.length = sources'.length)
    (hlength : passed.length = passed'.length)
    (htail : (passed ++ sources).Perm (passed' ++ sources')) :
    Uncrossed (standing inside tail pending passed gaps sources)
        (standing inside tail pending' passed' gaps sources') ↔
      (pending = pending' ∧ (pending ≠ [] → passed.Perm passed')) ∧
        Steady inside passed passed' sources sources' := by
  induction sources generalizing gaps sources' pending pending' passed passed' with
  | nil =>
      obtain rfl := List.eq_nil_of_length_eq_zero hgaps
      obtain rfl := List.eq_nil_of_length_eq_zero hsources.symm
      rw [List.append_nil, List.append_nil] at htail
      rw [standing.eq_2 _ _ _ _ _ _ (by simp), standing.eq_2 _ _ _ _ _ _ (by simp),
        uncrossed_map_iff]
      simp [Steady, htail]
  | cons source sources ih =>
      cases gaps with
      | nil => cases hgaps
      | cons gap gaps =>
          cases sources' with
          | nil => cases hsources
          | cons source' sources' =>
              obtain ⟨hgap, hclear⟩ := hclear
              have hnext : (passed ++ [source]).length = (passed' ++ [source']).length := by
                rw [List.length_append, List.length_append, hlength]
                rfl
              -- lines behind the first source stand behind more sources than those in front of it
              have hlonger : ∀ {pending passed'' : List Text} {source : Text} {gaps : List (List Text)}
                  {sources : List Text}, passed''.length = passed.length →
                    ∀ line ∈ standing inside tail pending (passed'' ++ [source]) gaps sources,
                      passed.length < line.2.length := by
                intro pending passed'' source gaps sources hsame line hmem
                refine length_lt_of_mem_standing hmem ?_
                rw [List.length_append, hsame]
                exact Nat.lt_succ_self _
              rw [standing, standing,
                uncrossed_append_iff hlength (hlonger rfl) (hlonger hlength.symm), uncrossed_map_iff,
                ih hclear (by simpa using hgaps) (by simpa using hsources) hnext (by simpa using htail),
                Steady, List.append_cancel_right_eq]
              refine and_congr (and_congr_right fun _ => ?_) and_assoc
              refine ⟨fun h hne => h (by simp [hne]), fun h hne => ?_⟩
              -- lines pending and lines in the gap ask for the same sources in front of them
              by_cases hpending : pending = []
              · exact hgap (by simpa [hpending] using hne)
              · exact h hpending

/-! ## Sources that change places in groups -/

/-- Gaps of a row whose sources fall into groups: no line stands inside a group. -/
inductive Grouped {α : Type} : List (List Text) → List (List α) → Prop
  | nil : Grouped [] []
  | cons {gap : List Text} {inner gaps : List (List Text)} {first : α} {group : List α}
      {groups : List (List α)} (hinner : ∀ lines ∈ inner, lines = [])
      (hlength : inner.length = group.length) (hrest : Grouped gaps groups) :
      Grouped (gap :: (inner ++ gaps)) ((first :: group) :: groups)

theorem Clear.append {inner : List (List Text)} (hinner : ∀ lines ∈ inner, lines = [])
    (hlength : inner.length = sources.length) (hsources : sources.length = sources'.length)
    (h : Clear (passed ++ sources) (passed' ++ sources') gaps others others') :
    Clear passed passed' (inner ++ gaps) (sources ++ others) (sources' ++ others') := by
  induction sources generalizing inner passed passed' sources' with
  | nil =>
      obtain rfl := List.eq_nil_of_length_eq_zero hlength
      obtain rfl := List.eq_nil_of_length_eq_zero hsources.symm
      simpa using h
  | cons source sources ih =>
      cases inner with
      | nil => cases hlength
      | cons lines inner =>
          cases sources' with
          | nil => cases hsources
          | cons source' sources' =>
              refine ⟨fun hne => absurd (hinner lines List.mem_cons_self) hne, ?_⟩
              exact ih (fun lines hmem => hinner lines (List.mem_cons_of_mem _ hmem))
                (by simpa using hlength) (by simpa using hsources) (by simpa using h)

theorem Grouped.clear {groups groups' : List (List Text)} (h : Grouped gaps groups)
    (hgroups : Forall₂ List.Perm groups groups') (hpassed : passed.Perm passed') :
    Clear passed passed' gaps groups.flatten groups'.flatten := by
  induction h generalizing groups' passed passed' with
  | nil =>
      cases hgroups
      trivial
  | @cons gap inner gaps first group groups hinner hlength hrest ih =>
      cases hgroups with
      | @cons _ group' _ groups' hgroup hgroups =>
          cases group' with
          | nil => exact absurd hgroup.length_eq (by simp)
          | cons first' group' =>
              have hsame : group.length = group'.length := by simpa using hgroup.length_eq
              refine ⟨fun _ => hpassed, Clear.append hinner hlength hsame (ih hgroups ?_)⟩
              simpa using hpassed.append hgroup

theorem Grouped.length_eq {α : Type} {groups : List (List α)} (h : Grouped gaps groups) :
    gaps.length = groups.flatten.length := by
  induction h with
  | nil => rfl
  | cons hinner hlength hrest ih =>
      rw [List.flatten_cons, List.length_append, List.length_cons, List.length_append, ih, hlength,
        List.length_cons]
      omega

theorem Grouped.append {α : Type} {gaps' : List (List Text)} {groups groups' : List (List α)}
    (h : Grouped gaps groups) (h' : Grouped gaps' groups') :
    Grouped (gaps ++ gaps') (groups ++ groups') := by
  induction h with
  | nil => exact h'
  | cons hinner hlength hrest ih =>
      rw [List.cons_append, List.append_assoc]
      exact .cons hinner hlength ih

theorem Grouped.map {α β : Type} {groups : List (List α)} (h : Grouped gaps groups) (f : α → β) :
    Grouped gaps (groups.map (List.map f)) := by
  induction h with
  | nil => exact .nil
  | cons hinner hlength hrest ih => exact .cons hinner (by rw [hlength, List.length_map]) ih

theorem grouped_singletons {α : Type} {items : List α} (h : gaps.length = items.length) :
    Grouped gaps (items.map fun item => [item]) := by
  induction items generalizing gaps with
  | nil =>
      obtain rfl := List.eq_nil_of_length_eq_zero h
      exact .nil
  | cons item items ih =>
      cases gaps with
      | nil => cases h
      | cons gap gaps =>
          have hinner : ∀ lines ∈ ([] : List (List Text)), lines = [] := by simp
          exact .cons hinner rfl (ih (by simpa using h))

theorem steady_of_forall_eq_nil (h : ∀ source ∈ sources, inside source = [])
    (h' : ∀ source ∈ sources', inside source = []) :
    Steady inside passed passed' sources sources' := by
  induction sources generalizing passed passed' sources' with
  | nil => simp [Steady]
  | cons source sources ih =>
      cases sources' with
      | nil => simp [Steady]
      | cons source' sources' =>
          have hnone := h source List.mem_cons_self
          refine ⟨hnone.trans (h' source' List.mem_cons_self).symm,
            fun hlines => absurd hnone hlines, ?_⟩
          exact ih (fun source hmem => h source (List.mem_cons_of_mem _ hmem))
            fun source hmem => h' source (List.mem_cons_of_mem _ hmem)

theorem steady_append_iff (h : sources.length = sources'.length) :
    Steady inside passed passed' (sources ++ others) (sources' ++ others') ↔
      Steady inside passed passed' sources sources' ∧
        Steady inside (passed ++ sources) (passed' ++ sources') others others' := by
  induction sources generalizing passed passed' sources' with
  | nil =>
      obtain rfl := List.eq_nil_of_length_eq_zero h.symm
      simp [Steady]
  | cons source sources ih =>
      cases sources' with
      | nil => cases h
      | cons source' sources' =>
          rw [List.cons_append, List.cons_append, Steady, Steady, ih (by simpa using h)]
          simp [and_assoc]

/-- What stands in front of two rows does not matter if it is the same. -/
theorem steady_behind_iff {front front' : List Text} (h : front.Perm front') :
    Steady inside (front ++ passed) (front' ++ passed') sources sources' ↔
      Steady inside passed passed' sources sources' := by
  induction sources generalizing passed passed' sources' with
  | nil => simp [Steady]
  | cons source sources ih =>
      cases sources' with
      | nil => simp [Steady]
      | cons source' sources' =>
          rw [Steady, Steady, List.append_assoc, List.append_assoc, ih,
            (h.append_right _).congr_left, List.perm_append_left_iff]

theorem steady_flatten_iff {groups groups' : List (List Text)}
    (h : Forall₂ List.Perm groups groups') :
    Steady inside [] [] groups.flatten groups'.flatten ↔
      Forall₂ (Steady inside [] []) groups groups' := by
  induction h with
  | nil => simp [Steady]
  | @cons group group' groups groups' hgroup _ ih =>
      have hbehind : Steady inside (group ++ []) (group' ++ []) groups.flatten groups'.flatten ↔
          Steady inside [] [] groups.flatten groups'.flatten := steady_behind_iff hgroup
      rw [List.append_nil, List.append_nil] at hbehind
      rw [List.flatten_cons, List.flatten_cons, steady_append_iff hgroup.length_eq,
        List.forall₂_cons, ← ih, ← hbehind, List.nil_append, List.nil_append]

/-- The sources that have lines inside. -/
def lined (inside : Text → List Text) (sources : List Text) : List Text :=
  sources.filter fun source => decide (inside source ≠ [])

theorem lined_concat (hlines : inside source ≠ []) (sources : List Text) :
    lined inside (sources ++ [source]) = lined inside sources ++ [source] := by
  simp [lined, hlines]

theorem lined_concat_of_eq_nil (hlines : inside source = []) (sources : List Text) :
    lined inside (sources ++ [source]) = lined inside sources := by
  simp [lined, hlines]

theorem Steady.lined_perm (h : Steady inside passed passed' sources sources')
    (hlength : sources.length = sources'.length)
    (hpassed : (lined inside passed).Perm (lined inside passed')) :
    (lined inside (passed ++ sources)).Perm (lined inside (passed' ++ sources')) := by
  induction sources generalizing passed passed' sources' with
  | nil =>
      obtain rfl := List.eq_nil_of_length_eq_zero hlength.symm
      simpa using hpassed
  | cons source sources ih =>
      cases sources' with
      | nil => cases hlength
      | cons source' sources' =>
          obtain ⟨hsame, hperm, hrest⟩ := h
          have hnext : (lined inside (passed ++ [source])).Perm
              (lined inside (passed' ++ [source'])) := by
            by_cases hlines : inside source = []
            · rwa [lined_concat_of_eq_nil hlines, lined_concat_of_eq_nil (hsame ▸ hlines)]
            · exact (hperm hlines).filter _
          have hall := ih hrest (by simpa using hlength) hnext
          simpa using hall

theorem Steady.stays {front front' back back' : List Text}
    (h : Steady inside [] [] (front ++ source :: back) (front' ++ source' :: back'))
    (hlength : front.length = front'.length) (hlines : inside source ≠ []) :
    source = source' ∧ front.Perm front' := by
  obtain ⟨hfront, hsame, hperm, -⟩ := (steady_append_iff hlength).mp h
  have hthrough := (hperm hlines).filter fun source => decide (inside source ≠ [])
  have hbefore := hfront.lined_perm hlength (.refl _)
  -- one more source with lines has begun in each row
  change (lined inside _).Perm (lined inside _) at hthrough
  rw [lined_concat hlines, lined_concat (hsame ▸ hlines)] at hthrough
  have hsingle := (List.perm_append_left_iff _).mp ((hbefore.append_right _).symm.trans hthrough)
  obtain rfl : source = source' := by simpa using hsingle
  exact ⟨rfl, (List.perm_append_right_iff [source]).mp (by simpa using hperm hlines)⟩

/-! ## Sorted groups -/

section Sorted

variable {α : Type} {le : α → α → Bool} {text : α → Text} {items before after : List α} {item : α}

/-- A property of pairs one of which is marked, told by the places of the marked ones. -/
theorem pairwise_of_places {R : α → α → Prop} {marked : α → Prop}
    (h : ∀ before item after, items = before ++ item :: after → marked item →
      (∀ first ∈ before, R first item) ∧ ∀ second ∈ after, R item second) :
    items.Pairwise fun first second => marked first ∨ marked second → R first second := by
  induction items with
  | nil => exact .nil
  | cons first items ih =>
      refine .cons (fun second hmem hmarked => ?_) (ih fun before item after hcut hmarked => ?_)
      · rcases hmarked with hmarked | hmarked
        · exact (h [] first items rfl hmarked).2 second hmem
        · obtain ⟨before, after, rfl⟩ := List.append_of_mem hmem
          exact (h (first :: before) second after rfl hmarked).1 first List.mem_cons_self
      · obtain ⟨hbefore, hafter⟩ := h (first :: before) item after (by rw [hcut]; rfl) hmarked
        exact ⟨fun earlier hearlier => hbefore earlier (List.mem_cons_of_mem _ hearlier), hafter⟩

variable (htrans : ∀ first second third, le first second = true → le second third = true →
    le first third = true)
  (htotal : ∀ first second, (le first second || le second first) = true)

include htrans htotal

/-- An item that stands in order with all others is not crossed by sorting. -/
theorem exists_mergeSort_eq (hbefore : ∀ first ∈ before, le first item = true)
    (hafter : ∀ second ∈ after, le item second = true) :
    ∃ front, (before ++ item :: after).mergeSort le = front ++ item :: after.mergeSort le ∧
      front.Perm before := by
  induction before with
  | nil =>
      obtain ⟨front, back, hsorted, hrest, hgreater⟩ := List.mergeSort_cons htrans htotal item after
      cases front with
      | nil => exact ⟨[], by rw [List.nil_append, hsorted, hrest]; rfl, .refl _⟩
      | cons second front =>
          have hmem : second ∈ after.mergeSort le := by
            rw [hrest]
            exact List.mem_cons_self
          have hnot := hgreater second List.mem_cons_self
          rw [hafter second (List.mem_mergeSort.mp hmem)] at hnot
          cases hnot
  | cons first before ih =>
      obtain ⟨sorted, hsorted, hperm⟩ :=
        ih fun second hmem => hbefore second (List.mem_cons_of_mem _ hmem)
      obtain ⟨front, back, hcons, hrest, hgreater⟩ :=
        List.mergeSort_cons htrans htotal first (before ++ item :: after)
      -- the first may stand before the item, so it is put in front of it
      obtain ⟨middle, rfl, rfl⟩ : ∃ middle, sorted = front ++ middle ∧
          back = middle ++ item :: after.mergeSort le := by
        rcases List.append_eq_append_iff.mp (hsorted.symm.trans hrest) with
          ⟨others, rfl, hback⟩ | ⟨middle, rfl, rfl⟩
        · cases others with
          | nil => exact ⟨[], by simp, by simpa using hback.symm⟩
          | cons other others =>
              obtain ⟨rfl, -⟩ := List.cons.inj hback
              have hnot := hgreater item (by simp)
              rw [hbefore first List.mem_cons_self] at hnot
              cases hnot
        · exact ⟨middle, rfl, rfl⟩
      refine ⟨front ++ first :: middle, ?_, List.perm_middle.trans (hperm.cons first)⟩
      rw [List.cons_append, hcons, List.append_assoc, List.cons_append]

theorem places_of_steady
    (hsame : ∀ first ∈ before ++ item :: after, ∀ second ∈ before ++ item :: after,
      text first = text second → le first second = true)
    (h : Steady inside [] [] ((before ++ item :: after).map text)
      (((before ++ item :: after).mergeSort le).map text))
    (hlines : inside (text item) ≠ []) :
    (∀ first ∈ before, le first item = true) ∧ ∀ second ∈ after, le item second = true := by
  have hperm := List.mergeSort_perm (before ++ item :: after) le
  have hsorted := List.pairwise_mergeSort htrans htotal (before ++ item :: after)
  generalize hall : (before ++ item :: after).mergeSort le = sorted at h hperm hsorted
  have hlt : before.length < sorted.length := by
    rw [hperm.length_eq, List.length_append, List.length_cons]
    omega
  -- the sorted list, cut at the place that the item had
  have hcut : sorted = sorted.take before.length ++
      sorted[before.length] :: sorted.drop (before.length + 1) := by
    rw [List.getElem_cons_drop, List.take_append_drop]
  have hlength : (sorted.take before.length).length = before.length :=
    List.length_take_of_le (Nat.le_of_lt hlt)
  clear hall
  generalize sorted.take before.length = before' at hcut hlength
  generalize sorted[before.length] = item' at hcut
  generalize sorted.drop (before.length + 1) = after' at hcut
  subst hcut
  rw [List.map_append, List.map_append, List.map_cons, List.map_cons] at h
  -- the item there shows the same text, and the texts on either side are those of before
  obtain ⟨htext, hfront⟩ := h.stays (by rw [List.length_map, List.length_map, hlength]) hlines
  have hback : (after.map text).Perm (after'.map text) := by
    have htexts := hperm.map text
    rw [List.map_append, List.map_append, List.map_cons, List.map_cons, htext] at htexts
    have hrest := htexts.trans (hfront.append_right _)
    exact (((List.perm_append_left_iff _).mp hrest).cons_inv).symm
  have hitem' : item' ∈ before ++ item :: after := hperm.mem_iff.mp (by simp)
  obtain ⟨-, hafter', hbefore'⟩ := List.pairwise_append.mp hsorted
  constructor
  · intro first hmem
    -- `first`, its counterpart, the sorted item and the item itself are in this order
    obtain ⟨first', hmem', hfirst⟩ := List.mem_map.mp (hfront.mem_iff.mp (List.mem_map_of_mem hmem))
    have hle := hsame first (by simp [hmem]) first' (hperm.mem_iff.mp (by simp [hmem'])) hfirst.symm
    have hle' := hsame item' hitem' item (by simp) htext.symm
    exact htrans _ _ _ hle (htrans _ _ _ (hbefore' first' hmem' item' List.mem_cons_self) hle')
  · intro second hmem
    obtain ⟨second', hmem', hsecond⟩ :=
      List.mem_map.mp (hback.mem_iff.mp (List.mem_map_of_mem hmem))
    have hle := hsame second' (hperm.mem_iff.mp (by simp [hmem'])) second (by simp [hmem]) hsecond
    have hle' := hsame item (by simp) item' hitem' htext
    exact htrans _ _ _ hle' (htrans _ _ _ ((List.pairwise_cons.mp hafter').1 second' hmem') hle)

theorem steady_of_pairwise (items : List α)
    (h : items.Pairwise fun first second =>
      inside (text first) ≠ [] ∨ inside (text second) ≠ [] → le first second = true) :
    Steady inside [] [] (items.map text) ((items.mergeSort le).map text) := by
  cases hfirst : items.find? fun item => decide (inside (text item) ≠ []) with
  | none =>
      have hnone : ∀ item ∈ items, inside (text item) = [] := by
        simpa using List.find?_eq_none.mp hfirst
      refine steady_of_forall_eq_nil ?_ ?_
      · intro source hmem
        obtain ⟨item, hitem, rfl⟩ := List.mem_map.mp hmem
        exact hnone item hitem
      · intro source hmem
        obtain ⟨item, hitem, rfl⟩ := List.mem_map.mp hmem
        exact hnone item (List.mem_mergeSort.mp hitem)
  | some item =>
      -- up to the first item with lines nothing is crossed, and behind it the sorting starts over
      obtain ⟨hlines, before, after, rfl, hbefore⟩ := List.find?_eq_some_iff_append.mp hfirst
      have hlines : inside (text item) ≠ [] := by simpa using hlines
      have hnone : ∀ first ∈ before, inside (text first) = [] := by simpa using hbefore
      obtain ⟨-, hitem, hcross⟩ := List.pairwise_append.mp h
      obtain ⟨hafter, hrest⟩ := List.pairwise_cons.mp hitem
      obtain ⟨front, hsorted, hperm⟩ := exists_mergeSort_eq htrans htotal
        (fun first hmem => hcross first hmem item List.mem_cons_self (.inr hlines))
        (fun second hmem => hafter second hmem (.inl hlines))
      have htexts := hperm.symm.map text
      rw [hsorted, List.map_append, List.map_append, List.map_cons, List.map_cons,
        steady_append_iff htexts.length_eq]
      refine ⟨steady_of_forall_eq_nil ?_ ?_, rfl, fun _ => ?_, ?_⟩
      · intro source hmem
        obtain ⟨first, hfirst, rfl⟩ := List.mem_map.mp hmem
        exact hnone first hfirst
      · intro source hmem
        obtain ⟨first, hfirst, rfl⟩ := List.mem_map.mp hmem
        exact hnone first (hperm.mem_iff.mp hfirst)
      · exact htexts.append_right _
      · have hbehind := (steady_behind_iff (htexts.append_right [text item])).mpr
          (steady_of_pairwise after hrest)
        simpa using hbehind
termination_by items.length
decreasing_by
  rw [‹items = before ++ item :: after›, List.length_append, List.length_cons]
  omega

/-- **Which sortings leave the lines inside sources uncrossed.** -/
theorem steady_mergeSort_iff (items : List α)
    (hsame : ∀ first ∈ items, ∀ second ∈ items, text first = text second → le first second = true) :
    Steady inside [] [] (items.map text) ((items.mergeSort le).map text) ↔
      items.Pairwise fun first second =>
        inside (text first) ≠ [] ∨ inside (text second) ≠ [] → le first second = true := by
  constructor
  · intro h
    have hplaces : ∀ before item after, items = before ++ item :: after → inside (text item) ≠ [] →
        (∀ first ∈ before, le first item = true) ∧ ∀ second ∈ after, le item second = true := by
      rintro before item after rfl hlines
      exact places_of_steady htrans htotal hsame h hlines
    exact pairwise_of_places hplaces
  · exact steady_of_pairwise htrans htotal items

end Sorted

end CSharpTidy
