import Mathlib.Algebra.GroupWithZero.Nat
import CSharpTidy.Proofs.Text.Rewrite

/-!
# One pass of splicing, and one edit at a time

Applying edits sorts them and copies the text once, with a cursor that looks at neighbours only. Here
the pass is compared with the edits taken one at a time, from the last place in the text to the first:
it goes through for edits that cut the text and are clear of each other, and then gives what they give.
Edits of the same place are insertions there, which stand in the order of the list.
-/

namespace CSharpTidy

namespace Span

theorem before_trans {first second third : Span} (h : first.before second = true)
    (h' : second.before third = true) : first.before third = true := by
  rw [before_iff] at *
  omega

theorem before_antisymm {first second : Span} (h : first.before second = true)
    (h' : second.before first = true) : first = second := by
  rw [before_iff] at *
  have hstart : first.start = second.start := by omega
  have hstop : first.stop = second.stop := by omega
  cases first
  cases second
  simp_all only

end Span

namespace Edit

/-- One of two edits ends no later than the other begins. -/
def Clear (first second : Edit) : Prop :=
  first.span.stop ≤ second.span.start ∨ second.span.stop ≤ first.span.start

/-- The text after one edit. -/
def applyTo (edit : Edit) (text : Text) : Text :=
  text.takeBytes edit.span.start ++ edit.replacement ++ text.dropBytes edit.span.stop

/-- The same edits in the order of their places. Edits of one span keep their order. -/
structure Arranges (edits arranged : List Edit) : Prop where
  perm : arranged.Perm edits
  ordered : arranged.Pairwise fun first second => first.span.before second.span = true
  stable : ∀ edit ∈ edits, arranged.filter (fun other => other.span == edit.span) =
    edits.filter fun other => other.span == edit.span

/-- The parts of a text, from `cursor` on, that lie between edits in order. -/
def gaps (text : Text) (cursor : Nat) : List Edit → List Text
  | [] => [text.dropBytes cursor]
  | edit :: edits => text.slice cursor edit.span.start :: gaps text edit.span.stop edits

/-- Texts of two lists in turn, and then what is left of the longer one. -/
def weave : List Text → List Text → Text
  | gap :: gaps, part :: parts => gap ++ part ++ weave gaps parts
  | [], parts => parts.flatten
  | gaps, [] => gaps.flatten

instance : DecidableRel Clear := fun _ _ => inferInstanceAs (Decidable (_ ∨ _))

instance (edits arranged : List Edit) : Decidable (Arranges edits arranged) :=
  decidable_of_iff
    (arranged.Perm edits ∧
      arranged.Pairwise (fun first second => first.span.before second.span = true) ∧
      ∀ edit ∈ edits, arranged.filter (fun other => other.span == edit.span) =
        edits.filter fun other => other.span == edit.span)
    ⟨fun ⟨hperm, hordered, hstable⟩ => ⟨hperm, hordered, hstable⟩,
      fun ⟨hperm, hordered, hstable⟩ => ⟨hperm, hordered, hstable⟩⟩

variable {text result : Text} {edit first second : Edit} {edits arranged : List Edit} {cursor : Nat}

theorem checkedSpan_eq_ok_iff {span : Span} :
    edit.checkedSpan text = .ok span ↔ edit.span.Cuts text ∧ span = edit.span := by
  constructor
  · intro h
    simp only [checkedSpan, Span.checked] at h
    by_cases hbounds : edit.span.start ≤ edit.span.stop ∧ edit.span.stop ≤ text.size
    · rw [if_pos hbounds] at h
      by_cases hcut : (text.isBoundary edit.span.start && text.isBoundary edit.span.stop) = true
      · simp only [hcut, if_true, Except.ok.injEq] at h
        obtain ⟨hstart, hstop⟩ := Bool.and_eq_true_iff.mp hcut
        exact ⟨⟨hbounds.1, hbounds.2, hstart, hstop⟩, h.symm⟩
      · simp [hcut] at h
    · simp [hbounds] at h
  · rintro ⟨hcuts, rfl⟩
    simp [checkedSpan, Span.checked, hcuts.le, hcuts.inside, hcuts.start, hcuts.stop]

/-- One turn of the pass: the edit cuts the text and begins no earlier than the cursor, and the rest goes
through from its end. -/
theorem splice_cons_eq_ok_iff :
    splice text cursor (edit :: edits) = .ok result ↔
      edit.span.Cuts text ∧ cursor ≤ edit.span.start ∧
        ∃ rest, splice text edit.span.stop edits = .ok rest ∧
          result = text.slice cursor edit.span.start ++ edit.replacement ++ rest := by
  constructor
  · intro h
    rw [splice] at h
    cases hchecked : edit.checkedSpan text with
    | error fault => simp [hchecked] at h
    | ok span =>
        obtain ⟨hcuts, rfl⟩ := checkedSpan_eq_ok_iff.mp hchecked
        by_cases hstart : edit.span.start < cursor
        · simp [hchecked, hstart] at h
        · cases hrest : splice text edit.span.stop edits with
          | error fault => simp [hchecked, hstart, hrest] at h
          | ok rest =>
              simp only [hchecked, hrest, if_neg hstart, Except.ok.injEq] at h
              exact ⟨hcuts, Nat.le_of_not_lt hstart, rest, rfl, h.symm⟩
  · rintro ⟨hcuts, hstart, rest, hrest, rfl⟩
    have hchecked := checkedSpan_eq_ok_iff.mpr ⟨hcuts, rfl⟩
    rw [splice]
    simp only [hchecked, hrest, if_neg (Nat.not_lt_of_le hstart)]

/-- The pass goes through edits of which each ends no later than those behind it begin. It compares an
edit with the one in front only, but no edit that cuts the text ends before it begins. -/
theorem exists_splice_iff :
    (∃ result, splice text cursor edits = .ok result) ↔
      (∀ edit ∈ edits, edit.span.Cuts text ∧ cursor ≤ edit.span.start) ∧
        edits.Pairwise fun first second => first.span.stop ≤ second.span.start := by
  induction edits generalizing cursor with
  | nil => simp [splice]
  | cons edit edits ih =>
      simp only [splice_cons_eq_ok_iff, List.forall_mem_cons, List.pairwise_cons]
      constructor
      · rintro ⟨_, hcuts, hstart, rest, hrest, -⟩
        obtain ⟨hlater, hpairwise⟩ := ih.mp ⟨rest, hrest⟩
        have hle := hcuts.le
        refine ⟨⟨⟨hcuts, hstart⟩, fun later hmem => ⟨(hlater later hmem).1, ?_⟩⟩,
          fun later hmem => (hlater later hmem).2, hpairwise⟩
        have := (hlater later hmem).2
        omega
      · rintro ⟨⟨⟨hcuts, hstart⟩, hlater⟩, hbehind, hpairwise⟩
        obtain ⟨rest, hrest⟩ :=
          ih.mpr ⟨fun later hmem => ⟨(hlater later hmem).1, hbehind later hmem⟩, hpairwise⟩
        exact ⟨_, hcuts, hstart, rest, hrest, rfl⟩

theorem Clear.symm (h : first.Clear second) : second.Clear first := Or.symm h

theorem Clear.stop_le_start (h : first.Clear second) (hfirst : first.span.Cuts text)
    (hsecond : second.span.Cuts text) (hbefore : first.span.before second.span = true) :
    first.span.stop ≤ second.span.start := by
  have hle := hfirst.le
  have hle' := hsecond.le
  rw [Span.before_iff] at hbefore
  rcases h with h | h <;> omega

/-- Edits that cut the text and are clear of each other are accepted, and no others. -/
theorem exists_applyAll_iff :
    (∃ result, applyAll text edits = .ok result) ↔
      (∀ edit ∈ edits, edit.span.Cuts text) ∧ edits.Pairwise Clear := by
  have hperm := sort_perm edits
  have hzero : ∀ edit : Edit, 0 ≤ edit.span.start := fun edit => Nat.zero_le _
  simp only [applyAll, exists_splice_iff, hzero, and_true, hperm.mem_iff]
  refine and_congr_right fun hcuts => ⟨fun h => ?_, fun h => ?_⟩
  · exact hperm.pairwise (h.imp fun hstop => .inl hstop) fun h => Clear.symm h
  · have hclear : (sort edits).Pairwise Clear := hperm.symm.pairwise h fun h => Clear.symm h
    refine (hclear.and (sort_pairwise_before edits)).imp_of_mem fun hfirst hsecond h => ?_
    exact h.1.stop_le_start (hcuts _ (hperm.mem_iff.mp hfirst))
      (hcuts _ (hperm.mem_iff.mp hsecond)) h.2

theorem sort_arranges (edits : List Edit) : Arranges edits (sort edits) where
  perm := sort_perm edits
  ordered := sort_pairwise_before edits
  stable := by
    rintro ⟨span, -⟩ -
    have hsame : (edits.filter fun edit => edit.span == span).Pairwise
        fun first second => first.span.before second.span = true := by
      refine List.pairwise_of_forall_mem_list fun first hfirst second hsecond => ?_
      have hfirst : first.span = span := by simpa using (List.mem_filter.mp hfirst).2
      have hsecond : second.span = span := by simpa using (List.mem_filter.mp hsecond).2
      rw [hfirst, hsecond, Span.before_iff]
      omega
    have hsublist : (edits.filter fun edit => edit.span == span).Sublist (sort edits) := by
      have htrans : ∀ first second third : Edit, first.span.before second.span = true →
          second.span.before third.span = true → first.span.before third.span = true :=
        fun _ _ _ h h' => Span.before_trans h h'
      have htotal : ∀ first second : Edit,
          (first.span.before second.span || second.span.before first.span) = true := by
        intro first second
        simp only [Bool.or_eq_true, Span.before_iff]
        omega
      exact List.sublist_mergeSort htrans htotal hsame List.filter_sublist
    have hfilter := hsublist.filter fun edit => edit.span == span
    simp only [List.filter_filter, Bool.and_self] at hfilter
    exact (hfilter.eq_of_length ((sort_perm edits).filter _).length_eq.symm).symm

theorem Arranges.filter_span (h : Arranges edits arranged) (span : Span) :
    arranged.filter (fun edit => edit.span == span) = edits.filter fun edit => edit.span == span := by
  by_cases hmem : ∃ edit ∈ edits, edit.span = span
  · obtain ⟨edit, hmem, rfl⟩ := hmem
    exact h.stable edit hmem
  · have hnone : ∀ edit ∈ edits, ¬(edit.span == span) = true :=
      fun edit hedit heq => hmem ⟨edit, hedit, beq_iff_eq.mp heq⟩
    rw [List.filter_eq_nil_iff.mpr hnone, List.filter_eq_nil_iff]
    exact fun edit hedit => hnone edit (h.perm.mem_iff.mp hedit)

theorem Arranges.unique {arranged' : List Edit} (h : Arranges edits arranged)
    (h' : Arranges edits arranged') : arranged = arranged' := by
  have hstable : ∀ span, arranged.filter (fun edit => edit.span == span) =
      arranged'.filter fun edit => edit.span == span :=
    fun span => (h.filter_span span).trans (h'.filter_span span).symm
  have hordered := h.ordered
  have hordered' := h'.ordered
  have hperm := h.perm.trans h'.perm.symm
  clear h h'
  induction arranged generalizing arranged' with
  | nil => exact (List.nil_perm.mp hperm).symm
  | cons edit arranged ih =>
      obtain _ | ⟨edit', arranged'⟩ := arranged'
      · exact absurd hperm.length_eq (by simp)
      · obtain ⟨hle, htail⟩ := List.pairwise_cons.mp hordered
        obtain ⟨hle', htail'⟩ := List.pairwise_cons.mp hordered'
        -- each head sorts no later than the other, so both have one span, and its filter begins with both
        have hspan : edit.span = edit'.span := by
          have hmem : edit ∈ edit' :: arranged' := hperm.mem_iff.mp List.mem_cons_self
          have hmem' : edit' ∈ edit :: arranged := hperm.mem_iff.mpr List.mem_cons_self
          rcases List.mem_cons.mp hmem with rfl | hmem
          · rfl
          rcases List.mem_cons.mp hmem' with rfl | hmem'
          · rfl
          exact Span.before_antisymm (hle edit' hmem') (hle' edit hmem)
        have hhead : edit = edit' := by
          have hcons := hstable edit.span
          simp only [List.filter_cons, beq_self_eq_true, ← hspan, if_true] at hcons
          exact (List.cons.inj hcons).1
        subst hhead
        have hrest : arranged = arranged' := by
          refine ih (fun span => ?_) htail htail' hperm.cons_inv
          have hcons := hstable span
          rw [List.filter_cons, List.filter_cons] at hcons
          split at hcons
          · exact (List.cons.inj hcons).2
          · exact hcons
        rw [hrest]

theorem Arranges.eq_sort (h : Arranges edits arranged) : arranged = sort edits :=
  h.unique (sort_arranges edits)

theorem sort_eq_of_perm {edits' : List Edit} (hperm : edits'.Perm edits)
    (hnodup : (edits.map Edit.span).Nodup) : sort edits' = sort edits := by
  have harranges := sort_arranges edits'
  refine Arranges.eq_sort ⟨harranges.perm.trans hperm, harranges.ordered, fun edit _ => ?_⟩
  rw [harranges.filter_span edit.span]
  obtain ⟨span, -⟩ := edit
  simp only
  have hfilter := hperm.filter fun edit => edit.span == span
  have hnodup : ((edits.filter fun edit => edit.span == span).map Edit.span).Nodup :=
    hnodup.sublist (List.filter_sublist.map Edit.span)
  have hspans : ∀ edit ∈ edits.filter fun edit => edit.span == span, edit.span = span :=
    fun edit hmem => by simpa using (List.mem_filter.mp hmem).2
  generalize edits.filter (fun edit => edit.span == span) = found at *
  match found with
  | [] => exact List.perm_nil.mp hfilter
  | [edit] => exact List.perm_singleton.mp hfilter
  | first :: second :: others =>
      have hfirst := hspans first List.mem_cons_self
      have hsecond := hspans second (List.mem_cons_of_mem _ List.mem_cons_self)
      simp [hfirst, hsecond] at hnodup

theorem applyTo_append (hcuts : edit.span.Cuts text) (tail : Text) :
    edit.applyTo (text.takeBytes edit.span.stop ++ tail) =
      text.takeBytes edit.span.start ++ edit.replacement ++ tail := by
  obtain ⟨before, part, rest, rfl, hspan⟩ := Span.cuts_iff.mp hcuts
  have htake : Text.takeBytes (Text.size (before ++ part)) (before ++ (part ++ rest)) =
      before ++ part := by
    rw [← List.append_assoc, Text.takeBytes_append]
  rw [applyTo, hspan]
  simp only [← Text.size_append]
  rw [htake, Text.dropBytes_append, List.append_assoc before, Text.takeBytes_append,
    Text.takeBytes_append]

/-- What the pass has copied up to the cursor and what it makes of the rest is what the edits give, one
at a time from the last. -/
theorem takeBytes_append_of_splice (hcursor : text.isBoundary cursor = true)
    (h : splice text cursor edits = .ok result) :
    text.takeBytes cursor ++ result = edits.foldr applyTo text := by
  induction edits generalizing cursor result with
  | nil =>
      obtain rfl : text.dropBytes cursor = result := Except.ok.inj h
      exact Text.takeBytes_append_dropBytes cursor text
  | cons edit edits ih =>
      obtain ⟨hcuts, hstart, rest, hrest, rfl⟩ := splice_cons_eq_ok_iff.mp h
      rw [List.foldr_cons, ← ih hcuts.stop hrest, applyTo_append hcuts,
        ← Text.takeBytes_append_slice hcursor hstart]
      simp only [List.append_assoc]

/-- What accepted edits give, all of them at once, is what they give one at a time. -/
theorem applyAll_eq_ok_iff : applyAll text edits = .ok result ↔
    (∀ edit ∈ edits, edit.span.Cuts text) ∧ edits.Pairwise Clear ∧
      ∃ arranged, Arranges edits arranged ∧ result = arranged.foldr applyTo text := by
  have heach : ∀ found, applyAll text edits = .ok found → found = (sort edits).foldr applyTo text := by
    intro found h
    have h := takeBytes_append_of_splice (Text.isBoundary_zero text) h
    rwa [Text.takeBytes_zero, List.nil_append] at h
  constructor
  · intro h
    obtain ⟨hcuts, hclear⟩ := exists_applyAll_iff.mp ⟨result, h⟩
    exact ⟨hcuts, hclear, sort edits, sort_arranges edits, heach result h⟩
  · rintro ⟨hcuts, hclear, arranged, harranges, rfl⟩
    obtain ⟨found, h⟩ := exists_applyAll_iff.mpr ⟨hcuts, hclear⟩
    rw [h, heach found h, harranges.eq_sort]

/-- Edits that stand in the order of their places are taken from the last to the first. -/
theorem applyAll_of_behind (hcuts : ∀ edit ∈ edits, edit.span.Cuts text)
    (hbehind : edits.Pairwise fun first second => first.span.stop ≤ second.span.start) :
    applyAll text edits = .ok (edits.foldr applyTo text) := by
  have hordered : edits.Pairwise fun first second => first.span.before second.span = true := by
    refine hbehind.imp_of_mem fun {first second} hfirst hsecond hle => Span.before_iff.mpr ?_
    have := (hcuts first hfirst).le
    have := (hcuts second hsecond).le
    omega
  exact applyAll_eq_ok_iff.mpr ⟨hcuts, hbehind.imp fun hle => .inl hle, edits,
    ⟨.refl _, hordered, fun _ _ => rfl⟩, rfl⟩

theorem applyTo_insert (before part rest : Text) :
    (insert before.size part).applyTo (before ++ rest) = before ++ (part ++ rest) := by
  rw [applyTo, insert, Span.empty, Text.takeBytes_append, Text.dropBytes_append, List.append_assoc]

theorem takeBytes_append_weave (hcursor : text.isBoundary cursor = true)
    (h : splice text cursor edits = .ok result) :
    text.takeBytes cursor ++
      weave (gaps text cursor edits) (edits.map fun edit => edit.span.slice text) = text := by
  induction edits generalizing cursor result with
  | nil => simp [gaps, weave, Text.takeBytes_append_dropBytes]
  | cons edit edits ih =>
      obtain ⟨hcuts, hstart, rest, hrest, rfl⟩ := splice_cons_eq_ok_iff.mp h
      rw [gaps, List.map_cons, weave, ← List.append_assoc, ← List.append_assoc,
        Text.takeBytes_append_slice hcursor hstart, Span.slice,
        Text.takeBytes_append_slice hcuts.start hcuts.le]
      exact ih hcuts.stop hrest

theorem weave_gaps_replacement (h : splice text cursor edits = .ok result) :
    weave (gaps text cursor edits) (edits.map Edit.replacement) = result := by
  induction edits generalizing cursor result with
  | nil => simpa [gaps, weave, splice] using h
  | cons edit edits ih =>
      obtain ⟨-, -, rest, hrest, rfl⟩ := splice_cons_eq_ok_iff.mp h
      rw [gaps, List.map_cons, weave, ih hrest]

theorem size_weave (gaps parts : List Text) :
    (weave gaps parts).size = (gaps.map Text.size).sum + (parts.map Text.size).sum := by
  have hflatten : ∀ texts : List Text, Text.size texts.flatten = (texts.map Text.size).sum := by
    intro texts
    induction texts with
    | nil => rfl
    | cons text texts ih => simp [ih]
  fun_induction weave gaps parts with
  | case1 gap gaps part parts ih =>
      simp only [Text.size_append, ih, List.map_cons, List.sum_cons]
      omega
  | case2 parts => simp [hflatten]
  | case3 gaps hne => simp [hflatten]

/-- The text grows by what edits put in place and shrinks by what they cover. -/
theorem size_applyAll (h : applyAll text edits = .ok result) :
    result.size + (edits.map fun edit => edit.span.length).sum =
      text.size + (edits.map fun edit => edit.replacement.size).sum := by
  have hcuts := (exists_applyAll_iff.mp ⟨result, h⟩).1
  have hperm := sort_perm edits
  have htext := takeBytes_append_weave (Text.isBoundary_zero text) h
  rw [Text.takeBytes_zero, List.nil_append] at htext
  have hresult := weave_gaps_replacement h
  have hlengths : (sort edits).map (fun edit => Text.size (edit.span.slice text)) =
      (sort edits).map fun edit => edit.span.length :=
    List.map_congr_left fun edit hmem => (hcuts edit (hperm.mem_iff.mp hmem)).size_slice
  have hsize := congrArg Text.size htext
  have hsize' := congrArg Text.size hresult
  rw [size_weave, List.map_map] at hsize hsize'
  have hcovered := (hperm.map fun edit => edit.span.length).sum_nat
  have hput := (hperm.map fun edit => edit.replacement.size).sum_nat
  simp only [Function.comp_def, hlengths] at hsize hsize'
  omega

/-- **Splicing, one edit at a time.** Edits are accepted exactly when each cuts the text and any two of
the list are clear of each other. Then the result is that of the edits one by one, from the last place
to the first: what lies between them stays, in order, and the replacements stand where the spans stood.
Where no two edits have one span, their order in the list makes no difference. -/
theorem applyAll_splices_each (text : Text) (edits : List Edit) :
    ((∃ result, applyAll text edits = .ok result) ↔
      (∀ edit ∈ edits, edit.span.Cuts text) ∧ edits.Pairwise Clear) ∧
    (∃ arranged, Arranges edits arranged) ∧
    (∀ arranged result, Arranges edits arranged → applyAll text edits = .ok result →
      result = arranged.foldr applyTo text ∧
      weave (gaps text 0 arranged) (arranged.map fun edit => edit.span.slice text) = text ∧
      weave (gaps text 0 arranged) (arranged.map Edit.replacement) = result) ∧
    (∀ result, applyAll text edits = .ok result →
      result.size + (edits.map fun edit => edit.span.length).sum =
        text.size + (edits.map fun edit => edit.replacement.size).sum) ∧
    ((edits.map Edit.span).Nodup → ∀ edits', edits'.Perm edits →
      applyAll text edits' = applyAll text edits) := by
  have hzero := Text.isBoundary_zero text
  refine ⟨exists_applyAll_iff, ⟨sort edits, sort_arranges edits⟩, fun arranged result harranges h => ?_,
    fun result h => size_applyAll h, fun hnodup edits' hperm => ?_⟩
  · rw [harranges.eq_sort]
    have heach := takeBytes_append_of_splice hzero h
    have htext := takeBytes_append_weave hzero h
    rw [Text.takeBytes_zero, List.nil_append] at heach htext
    exact ⟨heach, htext, weave_gaps_replacement h⟩
  · rw [applyAll, applyAll, sort_eq_of_perm hperm hnodup]

/-- Two insertions stand between a replacement and another, in the order of the list. -/
theorem applyAll_splices_each_of_insertions :
    let text : Text := ['a', 'é', 'b']
    let replaced : Edit := ⟨⟨1, 3⟩, ['e']⟩
    let inserted : List Edit := [insert 3 ['x'], insert 3 ['y']]
    let last : Edit := ⟨⟨3, 4⟩, ['B']⟩
    applyAll text ([last] ++ inserted ++ [replaced]) = .ok ['a', 'e', 'x', 'y', 'B'] ∧
      applyAll text [replaced, last] = applyAll text [last, replaced] := by
  intro text replaced inserted last
  have hall := applyAll_splices_each text ([last] ++ inserted ++ [replaced])
  have htwo := applyAll_splices_each text [last, replaced]
  have harranges : Arranges ([last] ++ inserted ++ [replaced]) ([replaced] ++ inserted ++ [last]) := by
    decide
  obtain ⟨result, h⟩ := hall.1.mpr ⟨by decide, by decide⟩
  obtain rfl := (hall.2.2.1 _ result harranges h).1
  exact ⟨h, htwo.2.2.2.2 (by decide) _ (by decide)⟩

end Edit

end CSharpTidy
