import CSharpTidy.Text.Edit

/-!
# Offsets into a text

An offset counts bytes, while proofs cut texts into parts. The lemmas here turn one view into the
other: the size of a first part is the offset at which the second begins.
-/

namespace CSharpTidy

namespace Text

variable {text before part rest : Text} {offset : Nat}

theorem utf8Size_ne_zero (c : Char) : c.utf8Size ≠ 0 := Nat.ne_of_gt c.utf8Size_pos

@[simp] theorem size_eq_zero : size text = 0 ↔ text = [] := by
  cases text with
  | nil => simp
  | cons c text =>
      have := c.utf8Size_pos
      simp only [size_cons, reduceCtorEq, iff_false]
      omega

theorem size_pos (h : text ≠ []) : 0 < size text :=
  Nat.pos_of_ne_zero fun hzero => h (size_eq_zero.mp hzero)

theorem takeBytes_zero (text : Text) : takeBytes 0 text = [] := by
  cases text with
  | nil => rfl
  | cons c text => simp [takeBytes, utf8Size_ne_zero c]

theorem dropBytes_zero (text : Text) : dropBytes 0 text = text := by
  cases text with
  | nil => rfl
  | cons c text => simp [dropBytes, utf8Size_ne_zero c]

@[simp] theorem dropBytes_append (before rest : Text) :
    dropBytes (size before) (before ++ rest) = rest := by
  induction before with
  | nil => exact dropBytes_zero rest
  | cons c before ih =>
      rw [List.cons_append, size_cons, dropBytes, if_pos (Nat.le_add_right _ _),
        Nat.add_sub_cancel_left, ih]

@[simp] theorem takeBytes_append (before rest : Text) :
    takeBytes (size before) (before ++ rest) = before := by
  induction before with
  | nil => exact takeBytes_zero rest
  | cons c before ih =>
      rw [List.cons_append, size_cons, takeBytes, if_pos (Nat.le_add_right _ _),
        Nat.add_sub_cancel_left, ih]

theorem takeBytes_prefix (text : Text) {n m : Nat} (h : n ≤ m) : takeBytes n text <+: takeBytes m text := by
  induction text generalizing n m with
  | nil => exact List.prefix_refl []
  | cons c text ih =>
      rw [takeBytes, takeBytes]
      by_cases hfits : c.utf8Size ≤ n
      · rw [if_pos hfits, if_pos (Nat.le_trans hfits h), List.prefix_cons_inj]
        exact ih (Nat.sub_le_sub_right h _)
      · rw [if_neg hfits]
        exact List.nil_prefix

theorem slice_append (before part rest : Text) :
    slice (before ++ (part ++ rest)) (size before) (size before + size part) = part := by
  rw [slice, dropBytes_append, Nat.add_sub_cancel_left, takeBytes_append]

theorem isBoundary_append (before rest : Text) :
    isBoundary (before ++ rest) (size before) = true := by
  induction before with
  | nil => cases rest <;> simp [isBoundary]
  | cons c before ih =>
      rw [List.cons_append, size_cons, isBoundary, Nat.add_sub_cancel_left, ih]
      simp

theorem exists_between_of_size_le {before' rest' : Text} (h : before ++ rest = before' ++ rest')
    (hsize : size before ≤ size before') :
    ∃ between, before' = before ++ between ∧ rest = between ++ rest' := by
  rcases List.append_eq_append_iff.mp h with ⟨between, hbefore, hrest⟩ | ⟨between, hbefore, hrest⟩
  · exact ⟨between, hbefore, hrest⟩
  · have hempty : between = [] := by
      rw [hbefore, size_append] at hsize
      exact size_eq_zero.mp (by omega)
    subst hempty
    exact ⟨[], by simpa using hbefore.symm, by simpa using hrest.symm⟩

theorem exists_cut_of_isBoundary (h : isBoundary text offset = true) :
    ∃ before rest : Text, text = before ++ rest ∧ size before = offset := by
  induction text generalizing offset with
  | nil =>
      rw [isBoundary, beq_iff_eq] at h
      exact ⟨[], [], rfl, h.symm⟩
  | cons c text ih =>
      rw [isBoundary, Bool.or_eq_true, Bool.and_eq_true, beq_iff_eq, decide_eq_true_eq] at h
      rcases h with rfl | ⟨hle, hrest⟩
      · exact ⟨[], c :: text, rfl, rfl⟩
      · obtain ⟨before, rest, rfl, hsize⟩ := ih hrest
        refine ⟨c :: before, rest, rfl, ?_⟩
        rw [size_cons, hsize]
        omega

theorem isBoundary_zero (text : Text) : isBoundary text 0 = true := isBoundary_append [] text

theorem isBoundary_size (text : Text) : isBoundary text (size text) = true := by
  simpa using isBoundary_append text []

theorem takeBytes_append_of_le (h : size before ≤ offset) (rest : Text) :
    takeBytes offset (before ++ rest) = before ++ takeBytes (offset - size before) rest := by
  induction before generalizing offset with
  | nil => rfl
  | cons c before ih =>
      rw [size_cons] at h
      rw [List.cons_append, takeBytes, if_pos (by omega), ih (by omega), size_cons,
        List.cons_append, Nat.sub_sub]

theorem slice_append_slice {start middle stop : Nat} (hstart : isBoundary text start = true)
    (hmiddle : isBoundary text middle = true) (hle : start ≤ middle) (hle' : middle ≤ stop) :
    slice text start middle ++ slice text middle stop = slice text start stop := by
  obtain ⟨before, rest, rfl, rfl⟩ := exists_cut_of_isBoundary hstart
  obtain ⟨before', rest', heq, rfl⟩ := exists_cut_of_isBoundary hmiddle
  obtain ⟨part, rfl, rfl⟩ := exists_between_of_size_le heq hle
  have hfirst : slice (before ++ (part ++ rest')) (size before) (size (before ++ part)) = part := by
    rw [size_append]
    exact slice_append before part rest'
  have hsecond : slice (before ++ (part ++ rest')) (size (before ++ part)) stop =
      takeBytes (stop - size (before ++ part)) rest' := by
    rw [slice, ← List.append_assoc, dropBytes_append]
  rw [size_append] at hle'
  rw [hfirst, hsecond, slice, dropBytes_append, takeBytes_append_of_le (by omega), size_append,
    Nat.sub_sub]

theorem takeBytes_append_slice {start stop : Nat} (hstart : isBoundary text start = true)
    (hle : start ≤ stop) : takeBytes start text ++ slice text start stop = takeBytes stop text := by
  simpa only [slice, dropBytes_zero, Nat.sub_zero] using
    slice_append_slice (isBoundary_zero text) hstart (Nat.zero_le start) hle

end Text

/-- A span that cuts a text between characters. -/
structure Span.Cuts (text : Text) (span : Span) : Prop where
  le : span.start ≤ span.stop
  inside : span.stop ≤ text.size
  start : text.isBoundary span.start = true
  stop : text.isBoundary span.stop = true

namespace Span

variable {text : Text} {span : Span}

instance (text : Text) (span : Span) : Decidable (span.Cuts text) :=
  decidable_of_iff
    (span.start ≤ span.stop ∧ span.stop ≤ text.size ∧ text.isBoundary span.start = true ∧
      text.isBoundary span.stop = true)
    ⟨fun ⟨hle, hinside, hstart, hstop⟩ => ⟨hle, hinside, hstart, hstop⟩,
      fun ⟨hle, hinside, hstart, hstop⟩ => ⟨hle, hinside, hstart, hstop⟩⟩

/-- A span cuts a text where it runs from the end of a first part to the beginning of a last. -/
theorem cuts_iff :
    span.Cuts text ↔ ∃ before part rest, text = before ++ (part ++ rest) ∧
      span = ⟨before.size, before.size + part.size⟩ := by
  constructor
  · rintro ⟨hle, -, hstart, hstop⟩
    obtain ⟨before, tail, htext, hbefore⟩ := Text.exists_cut_of_isBoundary hstart
    obtain ⟨before', rest, htext', hbefore'⟩ := Text.exists_cut_of_isBoundary hstop
    obtain ⟨part, rfl, rfl⟩ := Text.exists_between_of_size_le (htext.symm.trans htext') (by omega)
    refine ⟨before, part, rest, htext, ?_⟩
    rw [← Text.size_append, hbefore, hbefore']
  · rintro ⟨before, part, rest, rfl, rfl⟩
    refine ⟨Nat.le_add_right _ _, ?_, Text.isBoundary_append before (part ++ rest), ?_⟩
    · simp only [Text.size_append]
      omega
    · rw [← List.append_assoc, ← Text.size_append]
      exact Text.isBoundary_append (before ++ part) rest

theorem containsSpan_iff {outer inner : Span} :
    outer.containsSpan inner = true ↔ outer.start ≤ inner.start ∧ inner.stop ≤ outer.stop := by
  simp [containsSpan]

theorem Cuts.size_slice (h : span.Cuts text) : Text.size (span.slice text) = span.length := by
  obtain ⟨before, part, rest, rfl, rfl⟩ := cuts_iff.mp h
  rw [slice, length, Text.slice_append, Nat.add_sub_cancel_left]

end Span

end CSharpTidy
