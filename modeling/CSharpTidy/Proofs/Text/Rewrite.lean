import CSharpTidy.Proofs.Text.Offset

/-!
# What edits do to a text, offset by offset

Applying edits sorts them and splices the text. Where the edits lie apart from each other the result
can be read off without any order: at each offset stands what some edit inserts there, and then the
character itself, unless the span of some edit covers it.
-/

namespace CSharpTidy

namespace Span

theorem before_iff {first second : Span} :
    first.before second = true ↔
      first.start < second.start ∨ first.start = second.start ∧ first.stop ≤ second.stop := by
  change ((compare first.start second.start).then (compare first.stop second.stop)).isLE = true ↔ _
  rcases Nat.lt_trichotomy first.start second.start with hlt | heq | hgt
  · simp [Nat.compare_eq_lt.mpr hlt, hlt]
  · simp [heq, Nat.isLE_compare]
  · have hne : first.start ≠ second.start := Nat.ne_of_gt hgt
    simp [Nat.compare_eq_gt.mpr hgt, Nat.not_lt_of_gt hgt, hne]

end Span

namespace Edit

/-- An edit begins before another and ends no later than the other begins. -/
def Precedes (first second : Edit) : Prop :=
  first.span.start < second.span.start ∧ first.span.stop ≤ second.span.start

def Apart (first second : Edit) : Prop := first.Precedes second ∨ second.Precedes first

/-- The span of an edit cuts a part out of a text. -/
def Fits (text : Text) (edit : Edit) : Prop :=
  ∃ before part rest, text = before ++ (part ++ rest) ∧
    edit.span = ⟨before.size, before.size + part.size⟩

/-- What the edits that begin at an offset put there. -/
def inserted (edits : List Edit) (offset : Nat) : Text :=
  (edits.filter fun edit => edit.span.start == offset).flatMap Edit.replacement

/-- Whether the span of some edit covers an offset. -/
def covers (edits : List Edit) (offset : Nat) : Bool :=
  edits.any fun edit => edit.span.contains offset

/-- The text after edits, for a text that begins at `offset`. -/
def rewrite (edits : List Edit) (offset : Nat) : Text → Text
  | [] => inserted edits offset
  | c :: text =>
      inserted edits offset ++ (if covers edits offset then [] else [c]) ++
        rewrite edits (offset + c.utf8Size) text

variable {text before kept part rest : Text} {edit : Edit} {edits : List Edit} {offset : Nat}

theorem Fits.checkedSpan (h : edit.Fits text) : edit.checkedSpan text = .ok edit.span := by
  obtain ⟨before, part, rest, rfl, hspan⟩ := h
  have hstop : Text.isBoundary (before ++ (part ++ rest)) (before.size + part.size) = true := by
    rw [← List.append_assoc, ← Text.size_append]
    exact Text.isBoundary_append _ rest
  have hbound : before.size + part.size ≤ (before ++ (part ++ rest)).size := by
    simp only [Text.size_append]
    omega
  simp only [Edit.checkedSpan, Span.checked, hspan, Nat.le_add_right, true_and, hbound, if_true,
    Text.isBoundary_append, hstop, Bool.and_self]

@[simp] theorem inserted_nil (offset : Nat) : inserted [] offset = [] := rfl

@[simp] theorem covers_nil (offset : Nat) : covers [] offset = false := rfl

theorem inserted_eq_nil (h : ∀ edit ∈ edits, edit.span.start ≠ offset) :
    inserted edits offset = [] := by
  have hfilter : edits.filter (fun edit => edit.span.start == offset) = [] := by
    rw [List.filter_eq_nil_iff]
    intro edit hmem
    simpa using h edit hmem
  rw [inserted, hfilter, List.flatMap_nil]

theorem covers_eq_false (h : ∀ edit ∈ edits, offset < edit.span.start ∨ edit.span.stop ≤ offset) :
    covers edits offset = false := by
  rw [covers, List.any_eq_false]
  intro edit hmem
  have := h edit hmem
  simp only [Span.contains, Bool.and_eq_true, decide_eq_true_eq, not_and]
  omega

theorem covers_of_mem (h : edit ∈ edits) (hstart : edit.span.start ≤ offset)
    (hstop : offset < edit.span.stop) : covers edits offset = true := by
  rw [covers, List.any_eq_true]
  exact ⟨edit, h, by simp [Span.contains, hstart, hstop]⟩

theorem inserted_append (first second : List Edit) (offset : Nat) :
    inserted (first ++ second) offset = inserted first offset ++ inserted second offset := by
  simp [inserted]

theorem covers_append (first second : List Edit) (offset : Nat) :
    covers (first ++ second) offset = (covers first offset || covers second offset) := by
  simp [covers]

theorem rewrite_nil (offset : Nat) (text : Text) : rewrite [] offset text = text := by
  induction text generalizing offset with
  | nil => rfl
  | cons c text ih => simp [rewrite, ih]

theorem rewrite_kept (h : ∀ edit ∈ edits, offset + kept.size ≤ edit.span.start) :
    rewrite edits offset (kept ++ rest) = kept ++ rewrite edits (offset + kept.size) rest := by
  induction kept generalizing offset with
  | nil => rfl
  | cons c kept ih =>
      have hpos := c.utf8Size_pos
      have hlater : ∀ edit ∈ edits, offset + (c.utf8Size + Text.size kept) ≤ edit.span.start := h
      have hinserted : inserted edits offset = [] :=
        inserted_eq_nil fun edit hmem => by
          have := hlater edit hmem
          omega
      have hcovers : covers edits offset = false :=
        covers_eq_false fun edit hmem => by
          have := hlater edit hmem
          omega
      rw [List.cons_append, rewrite, hinserted, hcovers, ih]
      · simp [Nat.add_assoc]
      · intro edit hmem
        have := hlater edit hmem
        omega

theorem rewrite_cons_of_behind (hstart : edit.span.start < offset) (hstop : edit.span.stop ≤ offset) :
    rewrite (edit :: edits) offset text = rewrite edits offset text := by
  have hinserted : ∀ offset, edit.span.start < offset →
      inserted (edit :: edits) offset = inserted edits offset := by
    intro offset hlt
    simp [inserted, Nat.ne_of_lt hlt]
  induction text generalizing offset with
  | nil => exact hinserted offset hstart
  | cons c text ih =>
      have hcovers : covers (edit :: edits) offset = covers edits offset := by
        simp [covers, Span.contains, Nat.not_lt_of_le hstop]
      rw [rewrite, rewrite, hinserted offset hstart, hcovers, ih (by omega) (by omega)]

theorem rewrite_covered (hstart : edit.span.start < offset)
    (hstop : edit.span.stop = offset + part.size)
    (hlater : ∀ later ∈ edits, edit.span.stop ≤ later.span.start) :
    rewrite (edit :: edits) offset (part ++ rest) = rewrite edits (offset + part.size) rest := by
  induction part generalizing offset with
  | nil => exact rewrite_cons_of_behind hstart (Nat.le_of_eq hstop)
  | cons c part ih =>
      have hpos := c.utf8Size_pos
      have hsize : edit.span.stop = offset + (c.utf8Size + Text.size part) := hstop
      have hinserted : inserted (edit :: edits) offset = [] :=
        inserted_eq_nil fun later hmem => by
          rcases List.mem_cons.mp hmem with rfl | hmem
          · omega
          · have := hlater later hmem
            omega
      have hcovers : covers (edit :: edits) offset = true :=
        covers_of_mem List.mem_cons_self (by omega) (by omega)
      rw [List.cons_append, rewrite, hinserted, hcovers, ih (by omega) (by omega)]
      simp [Nat.add_assoc]

/-- At its span an edit stands for what it covers. -/
theorem rewrite_replaced (hspan : edit.span = ⟨offset, offset + part.size⟩)
    (hlater : ∀ later ∈ edits, edit.Precedes later) :
    rewrite (edit :: edits) offset (part ++ rest) =
      edit.replacement ++ rewrite edits (offset + part.size) rest := by
  have hstart : edit.span.start = offset := by rw [hspan]
  have hstop : edit.span.stop = offset + part.size := by rw [hspan]
  have hnone : inserted edits offset = [] :=
    inserted_eq_nil fun later hmem => by
      have := (hlater later hmem).1
      omega
  have hinserted : inserted (edit :: edits) offset = edit.replacement := by
    have hsplit : inserted (edit :: edits) offset = edit.replacement ++ inserted edits offset := by
      simp [inserted, hstart]
    rw [hsplit, hnone, List.append_nil]
  cases part with
  | nil =>
      -- an insertion covers nothing and lies behind at the next character
      have hempty : edit.span.stop = offset := hstop
      cases rest with
      | nil => simp [rewrite, hinserted, hnone]
      | cons c rest =>
          have hpos := c.utf8Size_pos
          have hcovers : covers (edit :: edits) offset = covers edits offset := by
            simp [covers, Span.contains, hempty]
          have hbehind : rewrite (edit :: edits) (offset + c.utf8Size) rest =
              rewrite edits (offset + c.utf8Size) rest :=
            rewrite_cons_of_behind (by omega) (by omega)
          rw [List.nil_append, Text.size_nil, Nat.add_zero, rewrite, rewrite, hinserted, hnone,
            hcovers, hbehind, List.nil_append, List.append_assoc]
  | cons c part =>
      have hpos := c.utf8Size_pos
      have hsize : edit.span.stop = offset + (c.utf8Size + Text.size part) := hstop
      have hcovers : covers (edit :: edits) offset = true :=
        covers_of_mem List.mem_cons_self (by omega) (by omega)
      have hcovered : rewrite (edit :: edits) (offset + c.utf8Size) (part ++ rest) =
          rewrite edits (offset + c.utf8Size + Text.size part) rest :=
        rewrite_covered (by omega) (by omega) fun later hmem => (hlater later hmem).2
      rw [List.cons_append, rewrite, hinserted, hcovers, hcovered]
      simp [Nat.add_assoc]

/-- Edits in order of their spans are spliced in offset by offset. -/
theorem splice_eq_rewrite (hfits : ∀ edit ∈ edits, edit.Fits (before ++ rest))
    (hsorted : edits.Pairwise Precedes) (hstart : ∀ edit ∈ edits, before.size ≤ edit.span.start) :
    splice (before ++ rest) before.size edits = .ok (rewrite edits before.size rest) := by
  induction edits generalizing before rest with
  | nil => rw [splice, Text.dropBytes_append, rewrite_nil]
  | cons edit edits ih =>
      obtain ⟨hprecedes, hsorted⟩ := List.pairwise_cons.mp hsorted
      have hchecked := (hfits edit List.mem_cons_self).checkedSpan
      obtain ⟨front, part, tail, htext, hspan⟩ := hfits edit List.mem_cons_self
      have hle : before.size ≤ front.size := by simpa [hspan] using hstart edit List.mem_cons_self
      -- the rest is what the first edit leaves in front of it, what it covers, and a tail
      obtain ⟨kept, rfl, rfl⟩ := Text.exists_between_of_size_le htext hle
      have hstop : edit.span.stop = (before ++ kept ++ part).size := by
        rw [hspan]
        simp only [Text.size_append]
      have hcut : before ++ (kept ++ (part ++ tail)) = before ++ kept ++ part ++ tail := by
        simp only [List.append_assoc]
      have htail : splice (before ++ (kept ++ (part ++ tail))) edit.span.stop edits =
          .ok (rewrite edits edit.span.stop tail) := by
        rw [hcut, hstop]
        refine ih (fun later hmem => ?_) hsorted fun later hmem => ?_
        · rw [← hcut]
          exact hfits later (List.mem_cons_of_mem edit hmem)
        · rw [← hstop]
          exact (hprecedes later hmem).2
      have hslice : Text.slice (before ++ (kept ++ (part ++ tail))) before.size
          edit.span.start = kept := by
        rw [hspan, Text.size_append]
        exact Text.slice_append before kept (part ++ tail)
      have hkept : ∀ later ∈ edit :: edits, before.size + kept.size ≤ later.span.start := by
        intro later hmem
        have hedit : edit.span.start = before.size + kept.size := by
          rw [hspan]
          exact Text.size_append before kept
        rcases List.mem_cons.mp hmem with rfl | hmem
        · omega
        · have := (hprecedes later hmem).1
          omega
      have hreplaced : rewrite (edit :: edits) (before.size + kept.size) (part ++ tail) =
          edit.replacement ++ rewrite edits (before.size + kept.size + part.size) tail :=
        rewrite_replaced (by rw [hspan, Text.size_append]) hprecedes
      have hnot : ¬edit.span.start < before.size := by
        rw [hspan]
        exact Nat.not_lt_of_le hle
      rw [splice, hchecked]
      simp only [if_neg hnot, htail, hslice]
      rw [rewrite_kept hkept, hreplaced, hstop]
      simp only [Text.size_append, List.append_assoc, Nat.add_assoc]

theorem Apart.symm {first second : Edit} (h : first.Apart second) : second.Apart first := Or.symm h

theorem Apart.precedes {first second : Edit} (h : first.Apart second)
    (hbefore : first.span.before second.span = true) : first.Precedes second := by
  rcases h with h | h
  · exact h
  · have := Span.before_iff.mp hbefore
    have := h.1
    omega

theorem sort_perm (edits : List Edit) : (sort edits).Perm edits := List.mergeSort_perm _ _

theorem sort_pairwise_before (edits : List Edit) :
    (sort edits).Pairwise fun first second => first.span.before second.span = true := by
  refine List.pairwise_mergeSort (fun first second third => ?_) (fun first second => ?_) edits
  · simp only [Span.before_iff]
    omega
  · simp only [Bool.or_eq_true, Span.before_iff]
    omega

theorem sort_pairwise_precedes (hapart : edits.Pairwise Apart) :
    (sort edits).Pairwise Precedes := by
  have hsortApart : (sort edits).Pairwise Apart :=
    (sort_perm edits).symm.pairwise hapart fun h => Apart.symm h
  exact (hsortApart.and (sort_pairwise_before edits)).imp fun h => h.1.precedes h.2

theorem inserted_perm {edits' : List Edit} (hperm : edits.Perm edits')
    (hapart : edits.Pairwise Apart) (offset : Nat) :
    inserted edits offset = inserted edits' offset := by
  have hfilter := hperm.filter fun edit => edit.span.start == offset
  have hpairwise := hapart.filter fun edit => edit.span.start == offset
  have heq : edits.filter (fun edit => edit.span.start == offset) =
      edits'.filter fun edit => edit.span.start == offset := by
    generalize hlist : edits.filter (fun edit => edit.span.start == offset) = found at *
    match found, hlist with
    | [], _ => exact (List.nil_perm.mp hfilter).symm
    | [edit], _ => exact (List.perm_singleton.mp hfilter.symm).symm
    | first :: second :: others, hlist =>
        exfalso
        have hmem : ∀ edit ∈ first :: second :: others, edit.span.start = offset := by
          intro edit hmem
          rw [← hlist] at hmem
          simpa using (List.mem_filter.mp hmem).2
        have hfirst := hmem first List.mem_cons_self
        have hsecond := hmem second (List.mem_cons_of_mem _ List.mem_cons_self)
        rcases (List.pairwise_cons.mp hpairwise).1 second List.mem_cons_self with h | h
        · have := h.1
          omega
        · have := h.1
          omega
  rw [inserted, inserted, heq]

theorem covers_perm {edits' : List Edit} (hperm : edits.Perm edits') (offset : Nat) :
    covers edits offset = covers edits' offset := by
  rw [Bool.eq_iff_iff]
  simp only [covers, List.any_eq_true, hperm.mem_iff]

theorem rewrite_perm {edits' : List Edit} (hperm : edits.Perm edits')
    (hapart : edits.Pairwise Apart) (offset : Nat) (text : Text) :
    rewrite edits offset text = rewrite edits' offset text := by
  induction text generalizing offset with
  | nil => exact inserted_perm hperm hapart offset
  | cons c text ih =>
      rw [rewrite, rewrite, inserted_perm hperm hapart, covers_perm hperm, ih]

/-- **Edits by offset.** Edits that fit a text and lie apart from each other are accepted in any
order, and give what they insert and leave at each offset. -/
theorem applyAll_eq_rewrite (hfits : ∀ edit ∈ edits, edit.Fits text)
    (hapart : edits.Pairwise Apart) : applyAll text edits = .ok (rewrite edits 0 text) := by
  have hperm := sort_perm edits
  have hsorted : ∀ edit ∈ sort edits, edit.Fits ([] ++ text) :=
    fun edit hmem => hfits edit (hperm.mem_iff.mp hmem)
  rw [rewrite_perm hperm.symm hapart]
  have hspliced : splice ([] ++ text) (Text.size []) (sort edits) =
      .ok (rewrite (sort edits) (Text.size []) text) :=
    splice_eq_rewrite hsorted (sort_pairwise_precedes hapart) fun edit _ => Nat.zero_le _
  exact hspliced

theorem applyAll_nil (text : Text) : applyAll text [] = .ok text := by
  rw [applyAll_eq_rewrite (fun _ hmem => by cases hmem) .nil, rewrite_nil]

/-- Edits in the order of their spans turn one text into another. The texts begin at an offset. -/
inductive Turns : Nat → List Edit → Text → Text → Prop
  | done {offset : Nat} (text : Text) : Turns offset [] text text
  | kept {offset : Nat} {edits : List Edit} {text text' : Text} (kept : Text)
      (hrest : Turns (offset + kept.size) edits text text') :
      Turns offset edits (kept ++ text) (kept ++ text')
  | replaced {offset : Nat} {edit : Edit} {edits : List Edit} {part text text' : Text}
      (hspan : edit.span = ⟨offset, offset + part.size⟩) (hne : part ≠ [])
      (hrest : Turns (offset + part.size) edits text text') :
      Turns offset (edit :: edits) (part ++ text) (edit.replacement ++ text')

variable {text' : Text}

theorem Turns.le_start (h : Turns offset edits text text') :
    ∀ edit ∈ edits, offset ≤ edit.span.start := by
  induction h with
  | done => exact fun _ hmem => by cases hmem
  | kept _ _ ih =>
      intro edit hmem
      have := ih edit hmem
      omega
  | replaced hspan _ _ ih =>
      intro edit hmem
      rcases List.mem_cons.mp hmem with rfl | hmem
      · exact Nat.le_of_eq (by rw [hspan])
      · have := ih edit hmem
        omega

theorem Turns.precedes {later : List Edit} (hspan : edit.span = ⟨offset, offset + part.size⟩)
    (hne : part ≠ []) (h : Turns (offset + part.size) later text text') :
    ∀ next ∈ later, edit.Precedes next := by
  intro next hmem
  have hpos := Text.size_pos hne
  have hle := h.le_start next hmem
  rw [Precedes, hspan]
  simp only
  omega

theorem Turns.pairwise (h : Turns offset edits text text') : edits.Pairwise Precedes := by
  induction h with
  | done => exact .nil
  | kept _ _ ih => exact ih
  | replaced hspan hne hrest ih =>
      exact List.pairwise_cons.mpr ⟨Turns.precedes hspan hne hrest, ih⟩

theorem Turns.fits (h : Turns offset edits text text') (hsize : before.size = offset) :
    ∀ edit ∈ edits, edit.Fits (before ++ text) := by
  induction h generalizing before with
  | done => exact fun _ hmem => by cases hmem
  | kept kept _ ih =>
      rw [← List.append_assoc]
      exact ih (by rw [Text.size_append, hsize])
  | @replaced offset edit edits part text text' hspan _ _ ih =>
      intro later hmem
      rcases List.mem_cons.mp hmem with rfl | hmem
      · exact ⟨before, part, text, rfl, by rw [hspan, hsize]⟩
      · rw [← List.append_assoc]
        exact ih (by rw [Text.size_append, hsize]) later hmem

theorem Turns.rewrite_eq (h : Turns offset edits text text') : rewrite edits offset text = text' := by
  induction h with
  | done text => exact rewrite_nil _ text
  | kept kept hrest ih => rw [rewrite_kept hrest.le_start, ih]
  | replaced hspan hne hrest ih =>
      rw [rewrite_replaced hspan (Turns.precedes hspan hne hrest), ih]

theorem Turns.applyAll_eq (h : Turns 0 edits text text') : applyAll text edits = .ok text' := by
  have hfits : ∀ edit ∈ edits, edit.Fits ([] ++ text) := h.fits Text.size_nil
  have hrewrite := applyAll_eq_rewrite hfits (h.pairwise.imp fun hprecedes => .inl hprecedes)
  rwa [List.nil_append, h.rewrite_eq] at hrewrite

end Edit

end CSharpTidy
