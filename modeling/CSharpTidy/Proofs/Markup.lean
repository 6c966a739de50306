import CSharpTidy.Markup
import CSharpTidy.Proofs.Text.Splice

/-!
# Marks taken out and put back

Reading a marked text takes offsets in the text it writes while it scans the one it reads, and the two
marks share a character. Here a text is cut into marks and characters first. Reading fails just where
the marks do not take turns, and the spans it gives are places at which the marks can be put back.
-/

namespace CSharpTidy

namespace Markup

/-- What a marked text is made of. -/
inductive Item where
  | opening
  | closing
  | plain (c : Char)
deriving DecidableEq, Repr

namespace Item

def text : Item → Text
  | opening => ['[', '|']
  | closing => ['|', ']']
  | plain c => [c]

end Item

/-- The marks and characters of a text, cut off from left to right. -/
def items : Text → List Item
  | [] => []
  | '[' :: '|' :: rest => .opening :: items rest
  | '|' :: ']' :: rest => .closing :: items rest
  | c :: rest => .plain c :: items rest

/-- Whether a mark is open behind items: whether the last mark among them is an opening one, or else
whether one was open in front. -/
def isOpenAfter (opened : Bool) : List Item → Bool
  | [] => opened
  | .opening :: items => isOpenAfter true items
  | .closing :: items => isOpenAfter false items
  | .plain _ :: items => isOpenAfter opened items

/-- How the marks among items fail to take turns. -/
def Breaks (opened : Bool) (items : List Item) : MarkupFault → Prop
  | .nested => ∃ before after, items = before ++ .opening :: after ∧ isOpenAfter opened before = true
  | .unopened => ∃ before after, items = before ++ .closing :: after ∧ isOpenAfter opened before = false
  | .unclosed => isOpenAfter opened items = true

/-- The edits that put the marks of spans into a text, span by span. -/
def insertions (spans : List Span) : List Edit :=
  spans.flatMap fun span =>
    [.insert span.start Item.opening.text, .insert span.stop Item.closing.text]

/-- Taking the marks out of items, from `offset` of the unmarked text on. -/
inductive Unmarks : Nat → Option Nat → List Item → Marked → Prop
  | done {offset : Nat} : Unmarks offset none [] ⟨[], []⟩
  | opening {offset : Nat} {items : List Item} {found : Marked}
      (hrest : Unmarks offset (some offset) items found) :
      Unmarks offset none (.opening :: items) found
  | closing {offset start : Nat} {items : List Item} {text : Text} {spans : List Span}
      (hrest : Unmarks offset none items ⟨text, spans⟩) :
      Unmarks offset (some start) (.closing :: items) ⟨text, ⟨start, offset⟩ :: spans⟩
  | plain {offset : Nat} {openedAt : Option Nat} {c : Char} {items : List Item} {text : Text}
      {spans : List Span} (hrest : Unmarks (offset + c.utf8Size) openedAt items ⟨text, spans⟩) :
      Unmarks offset openedAt (.plain c :: items) ⟨c :: text, spans⟩

variable {offset start : Nat} {openedAt : Option Nat} {marked before : Text} {opened : Bool}
  {item : Item} {rest : List Item} {found : Marked} {fault : MarkupFault}

theorem flatMap_items (marked : Text) : (items marked).flatMap Item.text = marked := by
  fun_induction items marked with
  | case1 => rfl
  | case2 rest ih => rw [List.flatMap_cons, ih]; rfl
  | case3 rest ih => rw [List.flatMap_cons, ih]; rfl
  | case4 c rest _ _ ih => rw [List.flatMap_cons, ih]; rfl

theorem isOpenAfter_cons (opened : Bool) (item : Item) (rest : List Item) :
    isOpenAfter opened (item :: rest) = isOpenAfter (isOpenAfter opened [item]) rest := by
  cases item <;> rfl

theorem Breaks.cons (h : Breaks (isOpenAfter opened [item]) rest fault) :
    Breaks opened (item :: rest) fault := by
  cases fault with
  | nested =>
      obtain ⟨before, after, rfl, hopen⟩ := h
      exact ⟨item :: before, after, rfl, by rw [isOpenAfter_cons, hopen]⟩
  | unopened =>
      obtain ⟨before, after, rfl, hopen⟩ := h
      exact ⟨item :: before, after, rfl, by rw [isOpenAfter_cons, hopen]⟩
  | unclosed => exact (isOpenAfter_cons opened item rest).trans h

theorem Breaks.cases_cons (h : Breaks opened (item :: rest) fault) :
    item = .opening ∧ opened = true ∨ item = .closing ∧ opened = false ∨
      Breaks (isOpenAfter opened [item]) rest fault := by
  cases fault with
  | nested =>
      obtain ⟨_ | ⟨first, before⟩, after, heq, hopen⟩ := h
      · exact .inl ⟨(List.cons.inj heq).1, hopen⟩
      · obtain ⟨rfl, rfl⟩ := List.cons.inj heq
        exact .inr (.inr ⟨before, after, rfl, by rwa [isOpenAfter_cons] at hopen⟩)
  | unopened =>
      obtain ⟨_ | ⟨first, before⟩, after, heq, hopen⟩ := h
      · exact .inr (.inl ⟨(List.cons.inj heq).1, hopen⟩)
      · obtain ⟨rfl, rfl⟩ := List.cons.inj heq
        exact .inr (.inr ⟨before, after, rfl, by rwa [isOpenAfter_cons] at hopen⟩)
  | unclosed => exact .inr (.inr ((isOpenAfter_cons opened item rest).symm.trans h))

/-! ## Reading -/

theorem items_plain {c : Char} {rest : Text} (hopening : ∀ tail, c = '[' → rest = '|' :: tail → False)
    (hclosing : ∀ tail, c = '|' → rest = ']' :: tail → False) :
    items (c :: rest) = .plain c :: items rest := by
  rw [items]
  · exact hopening
  · exact hclosing

/-- Reading takes the marks out, or else meets one out of turn. -/
theorem readFrom_cases (offset : Nat) (openedAt : Option Nat) (marked : Text) :
    match readFrom offset openedAt marked with
    | .ok found => Unmarks offset openedAt (items marked) found
    | .error fault => Breaks openedAt.isSome (items marked) fault := by
  fun_induction readFrom offset openedAt marked with
  | case1 offset openedAt hopen => exact hopen
  | case2 offset openedAt hclosed =>
      obtain rfl := Option.not_isSome_iff_eq_none.mp hclosed
      exact .done
  -- a mark opens while one is open
  | case3 offset openedAt rest hopen => exact ⟨[], items rest, rfl, hopen⟩
  | case4 offset openedAt rest hclosed ih =>
      obtain rfl := Option.not_isSome_iff_eq_none.mp hclosed
      rw [items]
      cases hread : readFrom offset (some offset) rest with
      | ok found =>
          rw [hread] at ih
          exact .opening ih
      | error fault =>
          rw [hread] at ih
          exact Breaks.cons ih
  -- a mark closes while none is open
  | case5 offset rest => exact ⟨[], items rest, rfl, rfl⟩
  | case6 offset rest start fault hread ih =>
      rw [hread] at ih
      exact Breaks.cons ih
  | case7 offset rest start found hread ih =>
      rw [hread] at ih
      exact .closing ih
  -- any other character, which is neither mark
  | case8 offset openedAt c rest hopening hclosing fault hread ih =>
      rw [hread] at ih
      rw [items_plain hopening hclosing]
      exact Breaks.cons ih
  | case9 offset openedAt c rest hopening hclosing found hread ih =>
      rw [hread] at ih
      rw [items_plain hopening hclosing]
      exact .plain ih

namespace Unmarks

theorem not_breaks (h : Unmarks offset openedAt rest found) (fault : MarkupFault) :
    ¬Breaks openedAt.isSome rest fault := by
  induction h with
  | done =>
      intro hbreaks
      cases fault with
      | nested => obtain ⟨before, after, heq, -⟩ := hbreaks; simp at heq
      | unopened => obtain ⟨before, after, heq, -⟩ := hbreaks; simp at heq
      | unclosed => cases hbreaks
  | opening _ ih =>
      intro hbreaks
      obtain ⟨-, hopen⟩ | ⟨hitem, -⟩ | hlater := hbreaks.cases_cons
      · cases hopen
      · cases hitem
      · exact ih hlater
  | closing _ ih =>
      intro hbreaks
      obtain ⟨hitem, -⟩ | ⟨-, hopen⟩ | hlater := hbreaks.cases_cons
      · cases hitem
      · cases hopen
      · exact ih hlater
  | plain _ ih =>
      intro hbreaks
      obtain ⟨hitem, -⟩ | ⟨hitem, -⟩ | hlater := hbreaks.cases_cons
      · cases hitem
      · cases hitem
      · exact ih hlater

/-- Spans end no earlier than they begin and no later than the next ones begin, and begin no earlier
than the mark that is open, or the offset where there is none. -/
theorem ordered (h : Unmarks offset openedAt rest found) (hopened : openedAt.getD offset ≤ offset) :
    (∀ span ∈ found.spans, openedAt.getD offset ≤ span.start) ∧
      found.spans.Pairwise fun first second => first.stop ≤ second.start := by
  induction h with
  | done => exact ⟨by simp, .nil⟩
  | opening _ ih => exact ih (Nat.le_refl _)
  | @closing offset start items text spans _ ih =>
      obtain ⟨hstart, hpairwise⟩ := ih (Nat.le_refl _)
      refine ⟨List.forall_mem_cons.mpr ⟨Nat.le_refl _, fun span hmem => ?_⟩,
        List.pairwise_cons.mpr ⟨hstart, hpairwise⟩⟩
      exact Nat.le_trans hopened (hstart span hmem)
  | @plain offset openedAt c items text spans _ ih =>
      cases openedAt with
      | none =>
          obtain ⟨hstart, hpairwise⟩ := ih (Nat.le_refl _)
          exact ⟨fun span hmem => Nat.le_trans (Nat.le_add_right _ _) (hstart span hmem), hpairwise⟩
      | some start => exact ih (Nat.le_trans hopened (Nat.le_add_right _ _))

/-- Spans cut the unmarked text, of which `before` has been written. -/
theorem cuts (h : Unmarks before.size openedAt rest found)
    (hopened : ∀ start ∈ openedAt, ∃ front part, before = front ++ part ∧ start = front.size) :
    ∀ span ∈ found.spans, span.Cuts (before ++ found.text) := by
  generalize hoffset : before.size = offset at h
  induction h generalizing before with
  | done => exact fun _ hmem => by cases hmem
  | opening _ ih =>
      refine ih ?_ hoffset
      rintro _ ⟨⟩
      exact ⟨before, [], (List.append_nil _).symm, hoffset.symm⟩
  | @closing offset start items text spans _ ih =>
      refine List.forall_mem_cons.mpr ⟨?_, ih (fun _ hnone => by cases hnone) hoffset⟩
      obtain ⟨front, part, rfl, rfl⟩ := hopened start rfl
      refine Span.cuts_iff.mpr ⟨front, part, text, List.append_assoc _ _ _, ?_⟩
      rw [← hoffset, Text.size_append]
  | @plain offset openedAt c items text spans _ ih =>
      have hopened' : ∀ start ∈ openedAt, ∃ front part, before ++ [c] = front ++ part ∧
          start = front.size := by
        intro start hstart
        obtain ⟨front, part, rfl, hsize⟩ := hopened start hstart
        exact ⟨front, part ++ [c], List.append_assoc _ _ _, hsize⟩
      have hsize : Text.size (before ++ [c]) = offset + c.utf8Size := by
        rw [Text.size_append, hoffset, Text.size_cons, Text.size_nil, Nat.add_zero]
      have hcuts := ih hopened' hsize
      rwa [List.append_assoc, List.singleton_append] at hcuts

theorem insertions_eq_cons (h : Unmarks offset (some start) rest found) :
    insertions found.spans =
      .insert start Item.opening.text :: (insertions found.spans).tail := by
  generalize hopened : some start = openedAt at h
  induction h with
  | done => cases hopened
  | opening => cases hopened
  | closing => cases hopened; rfl
  | plain _ ih => exact ih hopened

/-- Putting the marks back behind what has been written, where the mark that is open has its place
there. -/
theorem foldr_insertions (h : Unmarks before.size openedAt rest found) :
    ((insertions found.spans).drop openedAt.toList.length).foldr Edit.applyTo
      (before ++ found.text) = before ++ rest.flatMap Item.text := by
  generalize hoffset : before.size = offset at h
  induction h generalizing before with
  | done => rfl
  | opening hrest ih =>
      rw [Option.toList_none, List.length_nil, List.drop_zero, hrest.insertions_eq_cons,
        List.foldr_cons, List.flatMap_cons, ← hoffset]
      rw [← hoffset, Option.toList_some, List.length_singleton, List.drop_one] at ih
      rw [ih rfl, Edit.applyTo_insert]
  | closing hrest ih =>
      have hrest := ih hoffset
      rw [Option.toList_none, List.length_nil, List.drop_zero] at hrest
      rw [insertions, List.flatMap_cons]
      change (Edit.insert _ Item.closing.text :: insertions _).foldr Edit.applyTo _ = _
      rw [List.foldr_cons, hrest, ← hoffset, Edit.applyTo_insert, List.flatMap_cons]
  | @plain offset openedAt c items text spans _ ih =>
      have hsize : Text.size (before ++ [c]) = offset + c.utf8Size := by
        rw [Text.size_append, hoffset, Text.size_cons, Text.size_nil, Nat.add_zero]
      have hrest := ih hsize
      rw [List.append_assoc, List.append_assoc] at hrest
      exact hrest

end Unmarks

/-! ## Putting marks back -/

theorem cuts_insertions {spans : List Span} {text : Text}
    (hcuts : ∀ span ∈ spans, span.Cuts text) :
    ∀ edit ∈ insertions spans, edit.span.Cuts text := by
  intro edit hmem
  obtain ⟨span, hspan, hmem⟩ := List.mem_flatMap.mp hmem
  obtain ⟨hle, hinside, hstart, hstop⟩ := hcuts span hspan
  rw [List.mem_cons, List.mem_singleton] at hmem
  rcases hmem with rfl | rfl
  · exact ⟨Nat.le_refl _, Nat.le_trans hle hinside, hstart, hstart⟩
  · exact ⟨Nat.le_refl _, hinside, hstop, hstop⟩

theorem pairwise_insertions {spans : List Span} (hle : ∀ span ∈ spans, span.start ≤ span.stop)
    (hordered : spans.Pairwise fun first second => first.stop ≤ second.start) :
    (insertions spans).Pairwise fun first second => first.span.stop ≤ second.span.start := by
  rw [insertions, List.pairwise_flatMap]
  refine ⟨fun span hmem => List.pairwise_pair.mpr (hle span hmem),
    hordered.imp_of_mem fun {first second} hfirst hsecond hbehind => ?_⟩
  have hfirst := hle first hfirst
  have hsecond := hle second hsecond
  simp only [List.forall_mem_cons, List.not_mem_nil, false_implies, implies_true, and_true,
    Edit.insert, Span.empty]
  omega

/-- **Marks can be put back.** Reading fails just where a mark opens while one is open, closes while none
is, or stays open at the end. Otherwise the spans cut the text that is left, stand in order and do not
overlap, and the text with a mark put at each end of each span is the one that was read. -/
theorem read_undone (marked : Text) :
    match read marked with
    | .error fault => Breaks false (items marked) fault
    | .ok found =>
        (∀ fault, ¬Breaks false (items marked) fault) ∧
          (∀ span ∈ found.spans, span.Cuts found.text) ∧
          (found.spans.Pairwise fun first second => first.stop ≤ second.start) ∧
          Edit.applyAll found.text (insertions found.spans) = .ok marked := by
  have hcases := readFrom_cases 0 none marked
  rw [read]
  cases hread : readFrom 0 none marked with
  | error fault =>
      rw [hread] at hcases
      exact hcases
  | ok found =>
      rw [hread] at hcases
      have hunmarks : Unmarks (Text.size []) none (items marked) found := hcases
      have hcuts : ∀ span ∈ found.spans, span.Cuts found.text :=
        hunmarks.cuts fun _ hnone => by cases hnone
      obtain ⟨-, hordered⟩ := hunmarks.ordered (Nat.le_refl _)
      have hback : (insertions found.spans).foldr Edit.applyTo found.text = marked := by
        have hfoldr := hunmarks.foldr_insertions
        rwa [flatMap_items] at hfoldr
      refine ⟨hunmarks.not_breaks, hcuts, hordered, ?_⟩
      rw [Edit.applyAll_of_behind (cuts_insertions hcuts)
        (pairwise_insertions (fun span hmem => (hcuts span hmem).le) hordered), hback]

/-- Marks that touch: a span of two bytes, and an empty one directly behind it. -/
example : read "[|é|][||]]".toList = .ok ⟨['é', ']'], [⟨0, 2⟩, ⟨2, 2⟩]⟩ := rfl

end Markup

end CSharpTidy
