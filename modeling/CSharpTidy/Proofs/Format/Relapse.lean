import CSharpTidy.Proofs.Format.Pass

/-!
# Where one pass is not enough

A carriage return inside a line, with blanks on either side, comes to the end of the line when the
blanks behind it are trimmed. Then it counts as a part of the line end, and the blanks in front of it
are trailing blanks. This is the one thing that a pass leaves for the next.
-/

namespace CSharpTidy

namespace Spacing

open Piece (spell tagged locate Scanned)
open Scan (breaks)

variable {text mark final : Text} {lineStart want : Bool} {c : Char} {pieces gap others : List Piece}
  {marked marked' first second : List (Char × Bool)} {options : FormatSettings}

/-! ## Setting gaps right makes no difference -/

/-- Marked texts in which blanks come to the ends of lines alike. -/
structure Parallel (final : Text) (marked marked' : List (Char × Bool)) : Prop where
  breaks : breaks (plain marked) = breaks (plain marked')
  vanishes : vanishes final marked = vanishes final marked'
  stalls : stalls final marked = stalls final marked'
  relapses : relapses final marked = relapses final marked'

theorem Parallel.refl (final : Text) (marked : List (Char × Bool)) :
    Parallel final marked marked := ⟨rfl, rfl, rfl, rfl⟩

theorem Parallel.cons (h : Parallel final marked marked') (item : Char × Bool) :
    Parallel final (item :: marked) (item :: marked') where
  breaks := rfl
  vanishes := by rw [Spacing.vanishes, Spacing.vanishes, h.vanishes]
  stalls := by rw [Spacing.stalls, Spacing.stalls, h.stalls, h.breaks, h.vanishes]
  relapses := by rw [Spacing.relapses, Spacing.relapses, h.stalls, h.relapses]

theorem Parallel.append (h : Parallel final marked marked') (front : List (Char × Bool)) :
    Parallel final (front ++ marked) (front ++ marked') := by
  induction front with
  | nil => exact h
  | cons item front ih => exact ih.cons item

theorem parallel_of_isAlphanum (hletter : c.isAlphanum = true)
    (h : relapses final marked = relapses final marked') (quoted : Bool) :
    Parallel final ((c, quoted) :: marked) ((c, quoted) :: marked') := by
  have hne : ∀ mark : Char, mark.isAlphanum = false → (c == mark) = false := by
    intro mark hmark
    rw [beq_eq_false_iff_ne]
    rintro rfl
    rw [hletter] at hmark
    cases hmark
  have hblank : isBlank c = false := by
    rw [isBlank, hne ' ' (by decide), hne '\t' (by decide)]
    rfl
  refine ⟨rfl, ?_, ?_, ?_⟩
  · rw [vanishes, vanishes, hne '\n' (by decide), hblank]
    rfl
  · rw [stalls, stalls, hblank, hne '\r' (by decide)]
    rfl
  · rw [relapses, relapses, hblank, h]
    rfl

theorem stalls_append (hblanks : (plain first).all isBlank = true)
    (h : stalls final second = false) : stalls final (first ++ second) = false := by
  induction first with
  | nil => exact h
  | cons item first ih =>
      obtain ⟨hblank, hrest⟩ := Bool.and_eq_true_iff.mp hblanks
      rw [List.cons_append, stalls, if_pos hblank, ih hrest]

theorem relapses_append (hblanks : (plain first).all isBlank = true)
    (h : stalls final second = false) :
    relapses final (first ++ second) = relapses final second := by
  induction first with
  | nil => rfl
  | cons item first ih =>
      have hrest := (Bool.and_eq_true_iff.mp hblanks).2
      rw [List.cons_append, relapses, stalls_append hrest h, ih hrest, Bool.and_false,
        Bool.false_or]

theorem relapses_regap (hscanned : Scanned [] lineStart pieces) (want : Bool) :
    relapses final (tagged (regap want pieces)) = relapses final (tagged pieces) := by
  have hstalls : ∀ {others : List Piece} {lineStart : Bool}, Scanned [] lineStart others →
      opensClause others = true → stalls final (tagged others) = false := by
    intro others lineStart hscanned hopens
    obtain ⟨rest, hrest⟩ := spell_of_opensClause hscanned hopens
    rw [← Piece.plain_tagged] at hrest
    obtain ⟨quoted, tail, htagged, -⟩ := exists_marked_cons hrest
    rw [htagged]
    rfl
  obtain hkept | ⟨hopens, hadded⟩ | ⟨gap, others, rfl, -, hblank, hopens, hremoved⟩ :=
    regap_cases want pieces
  · rw [hkept]
  · rw [hadded]
    change relapses final ([(' ', false)] ++ tagged pieces) = _
    exact relapses_append rfl (hstalls hscanned hopens)
  · rw [← Piece.plain_tagged] at hblank
    rw [hremoved, Piece.tagged_append,
      relapses_append hblank (hstalls (Piece.scanned_append.mp hscanned).2 hopens)]

/-- Setting gaps right moves no blanks to the ends of lines. -/
theorem parallel_respace (hscanned : Scanned [] lineStart pieces) (want : Bool) :
    Parallel final (tagged (respace want pieces)) (tagged pieces) := by
  induction pieces generalizing lineStart with
  | nil => exact .refl final []
  | cons piece pieces ih =>
      cases piece with
      | blank c => exact (ih hscanned.2).cons (c, false)
      | token kind lexeme =>
          have hrest := ih hscanned.2
          rw [respace]
          split
          · next hword =>
              have hregap : relapses final (tagged (regap want (respace want pieces))) =
                  relapses final (tagged (respace want pieces)) :=
                relapses_regap (scanned_respace hscanned.2 want).1 want
              rw [hrest.relapses] at hregap
              obtain ⟨-, c, tail, rfl, hletter, -, htail⟩ := exists_letters hword
              have hletters : ∀ d ∈ c :: tail, d.isAlphanum = true := by
                intro d hmem
                rcases List.mem_cons.mp hmem with rfl | hmem
                · exact hletter
                · exact List.all_eq_true.mp htail d hmem
              -- the last letter of the keyword keeps what is in front of it apart from the gap
              obtain ⟨front, last, hlast⟩ :=
                (List.eq_nil_or_concat (c :: tail)).resolve_left (List.cons_ne_nil c tail)
              rw [hlast, List.concat_eq_append] at hletters ⊢
              have hparallel := parallel_of_isAlphanum (hletters last (by simp)) hregap
                (kind == .string)
              rw [tagged, tagged, tag_append, List.append_assoc, List.append_assoc]
              exact hparallel.append _
          · exact hrest.append (tag (kind == .string) lexeme)

/-! ## Relapses in a text -/

theorem vanishes_iff : vanishes final marked = true ↔
    ∃ blanks after, marked = tag false blanks ++ after ∧ blanks.all isBlank = true ∧
      (breaks (plain after) = true ∧ after ≠ [] ∨ after = [] ∧ breaks final = true) := by
  induction marked with
  | nil =>
      constructor
      · exact fun h => ⟨[], [], rfl, rfl, .inr ⟨rfl, h⟩⟩
      · rintro ⟨blanks, after, hmarked, -, hafter⟩
        obtain ⟨-, rfl⟩ := List.append_eq_nil_iff.mp hmarked.symm
        rcases hafter with ⟨-, hne⟩ | ⟨-, hbreaks⟩
        · exact absurd rfl hne
        · exact hbreaks
  | cons item marked ih =>
      obtain ⟨c, quoted⟩ := item
      rw [vanishes, Bool.or_eq_true, Bool.and_eq_true, Bool.and_eq_true, ih]
      constructor
      · rintro (hfeed | ⟨⟨hblank, hquoted⟩, blanks, after, rfl, hblanks, hafter⟩)
        · exact ⟨[], (c, quoted) :: marked, rfl, rfl, .inl ⟨hfeed, List.cons_ne_nil _ _⟩⟩
        · obtain rfl : quoted = false := by simpa using hquoted
          exact ⟨c :: blanks, after, rfl, by simp [hblank, hblanks], hafter⟩
      · rintro ⟨blanks, after, hmarked, hblanks, hafter⟩
        cases blanks with
        | nil =>
            left
            change (c, quoted) :: marked = after at hmarked
            subst hmarked
            rcases hafter with ⟨hbreaks, -⟩ | ⟨hnil, -⟩
            · exact hbreaks
            · cases hnil
        | cons d blanks =>
            obtain ⟨hitem, rfl⟩ := List.cons.inj hmarked
            obtain ⟨rfl, rfl⟩ := Prod.mk.inj hitem
            obtain ⟨hblank, hblanks⟩ := Bool.and_eq_true_iff.mp hblanks
            exact .inr ⟨⟨hblank, rfl⟩, blanks, after, rfl, hblanks, hafter⟩

theorem stalls_iff : stalls final marked = true ↔
    ∃ row quoted tail, marked = row ++ ('\r', quoted) :: tail ∧ (plain row).all isBlank = true ∧
      breaks (plain tail) = false ∧ vanishes final tail = true := by
  induction marked with
  | nil =>
      constructor
      · exact fun h => by cases h
      · rintro ⟨row, quoted, tail, h, -⟩
        cases row <;> cases h
  | cons item marked ih =>
      obtain ⟨c, quoted⟩ := item
      rw [stalls]
      split
      · next hblank =>
          rw [ih]
          constructor
          · rintro ⟨row, quoted', tail, rfl, hrow, hrest⟩
            exact ⟨(c, quoted) :: row, quoted', tail, rfl, Bool.and_eq_true_iff.mpr ⟨hblank, hrow⟩,
              hrest⟩
          · rintro ⟨row, quoted', tail, hmarked, hrow, hrest⟩
            cases row with
            | nil =>
                obtain ⟨hitem, -⟩ := List.cons.inj hmarked
                obtain ⟨rfl, -⟩ := Prod.mk.inj hitem
                cases hblank
            | cons item row =>
                obtain ⟨rfl, rfl⟩ := List.cons.inj hmarked
                exact ⟨row, quoted', tail, rfl, (Bool.and_eq_true_iff.mp hrow).2, hrest⟩
      · next hblank =>
          rw [Bool.and_eq_true, Bool.and_eq_true, beq_iff_eq, Bool.not_eq_true']
          constructor
          · rintro ⟨⟨rfl, hbreaks⟩, hvanishes⟩
            exact ⟨[], quoted, marked, rfl, rfl, hbreaks, hvanishes⟩
          · rintro ⟨row, quoted', tail, hmarked, hrow, hbreaks, hvanishes⟩
            cases row with
            | nil =>
                obtain ⟨hitem, rfl⟩ := List.cons.inj hmarked
                obtain ⟨rfl, -⟩ := Prod.mk.inj hitem
                exact ⟨⟨rfl, hbreaks⟩, hvanishes⟩
            | cons item row =>
                obtain ⟨rfl, -⟩ := List.cons.inj hmarked
                exact absurd (Bool.and_eq_true_iff.mp hrow).1 hblank

theorem relapses_iff : relapses final marked = true ↔
    ∃ head c rest, marked = head ++ (c, false) :: rest ∧ isBlank c = true ∧
      stalls final rest = true := by
  induction marked with
  | nil =>
      constructor
      · exact fun h => by cases h
      · rintro ⟨head, c, rest, h, -⟩
        cases head <;> cases h
  | cons item marked ih =>
      obtain ⟨c, quoted⟩ := item
      rw [relapses, Bool.or_eq_true, Bool.and_eq_true, Bool.and_eq_true, ih]
      constructor
      · rintro (⟨⟨hblank, hquoted⟩, hstalls⟩ | ⟨head, d, rest, rfl, hblank, hstalls⟩)
        · obtain rfl : quoted = false := by simpa using hquoted
          exact ⟨[], c, marked, rfl, hblank, hstalls⟩
        · exact ⟨(c, quoted) :: head, d, rest, rfl, hblank, hstalls⟩
      · rintro ⟨head, d, rest, hmarked, hblank, hstalls⟩
        cases head with
        | nil =>
            obtain ⟨hitem, rfl⟩ := List.cons.inj hmarked
            obtain ⟨rfl, rfl⟩ := Prod.mk.inj hitem
            exact .inl ⟨⟨hblank, rfl⟩, hstalls⟩
        | cons item head =>
            obtain ⟨rfl, rfl⟩ := List.cons.inj hmarked
            exact .inr ⟨head, d, rest, rfl, hblank, hstalls⟩

/-- Where blanks are trimmed, a text has a carriage return with blanks on either side, outside of
strings, and those behind it run to the end of their line. The carriage return becomes a part of the
line end, unless the text ends there and two characters are added to end it. -/
def Unsettled (options : FormatSettings) (text : Text) (tokens : List Token) : Prop :=
  options.trimTrailingWhitespace = true ∧
    ∃ before c blanks after, text = before ++ c :: '\r' :: (blanks ++ after) ∧ isBlank c = true ∧
      blanks ≠ [] ∧ blanks.all isBlank = true ∧
        (strings tokens).any (·.contains before.size) = false ∧
          (after.head? = some '\n' ∨
            after = [] ∧ (options.insertFinalNewline && hasCarriageReturns text) = false)

/-- The line end that is added breaks the line at once, unless it has two characters. -/
theorem breaks_lineEnd (hlast : text.getLast? = some c) (hblank : isBlank c = true) :
    breaks (lineEnd options text) = !(options.insertFinalNewline && hasCarriageReturns text) := by
  have hopen : (text.isEmpty || text.getLast? == some '\n') = false := by
    rw [hlast, Bool.or_eq_false_iff, List.isEmpty_eq_false_iff, beq_eq_false_iff_ne]
    constructor
    · rintro rfl
      cases hlast
    · intro hfeed
      cases hfeed
      cases hblank
  rw [lineEnd_eq, hopen, Bool.not_false, Bool.and_true]
  cases options.insertFinalNewline with
  | false => rfl
  | true => cases hasCarriageReturns text <;> rfl

theorem spacing_all {blanks : Text} (h : blanks.all isBlank = true) :
    blanks.all Scan.isBlank = true :=
  List.all_eq_true.mpr fun d hmem => isBlank_of_spacing (List.all_eq_true.mp h d hmem)

theorem eq_tag_of_forall (h : ∀ item ∈ marked, item.2 = false) :
    marked = tag false (plain marked) := by
  induction marked with
  | nil => rfl
  | cons item marked ih =>
      obtain ⟨c, quoted⟩ := item
      obtain rfl : quoted = false := h (c, quoted) List.mem_cons_self
      exact congrArg ((c, false) :: ·) (ih fun item hmem => h item (List.mem_cons_of_mem _ hmem))

/-- A mark is told by any blank in front of it in the same row. -/
theorem quoted_eq_of_row {head row tail : List (Char × Bool)} {quoted quoted' : Bool} {d : Char}
    (hcut : Piece.Cut text mark pieces)
    (htagged : tagged pieces = head ++ (c, quoted) :: (row ++ (d, quoted') :: tail))
    (hrow : (c :: plain row).all Scan.isBlank = true) (hblank : Scan.isBlank d = true) :
    quoted' = quoted := by
  have hfirst := any_contains_strings htagged mark.size
  have htagged' : tagged pieces = (head ++ (c, quoted) :: row) ++ (d, quoted') :: tail := by
    rw [htagged]
    simp
  have hsecond := any_contains_strings htagged' mark.size
  have htext : mark ++ spell pieces = (mark ++ plain head) ++ ((c :: plain row) ++ d :: plain tail) := by
    rw [← Piece.plain_tagged, htagged]
    simp [plain]
  have hsame := any_contains_row hcut.scanned htext hrow hblank
  rw [List.append_assoc, Text.size_append, Text.size_append] at hsame
  rw [plain_append] at hsecond
  exact hsecond.symm.trans (hsame.symm.trans hfirst)

theorem untagged_of_row {head row tail : List (Char × Bool)} (hcut : Piece.Cut text mark pieces)
    (htagged : tagged pieces = head ++ (c, false) :: (row ++ tail))
    (hrow : (c :: plain row).all Scan.isBlank = true) : ∀ item ∈ row, item.2 = false := by
  intro item hmem
  obtain ⟨front, back, rfl⟩ := List.append_of_mem hmem
  rw [plain_append, ← List.cons_append, List.all_append, Bool.and_eq_true] at hrow
  have htagged' : tagged pieces =
      head ++ (c, false) :: (front ++ (item.1, item.2) :: (back ++ tail)) := by
    rw [htagged]
    simp
  exact quoted_eq_of_row hcut htagged' hrow.1 (Bool.and_eq_true_iff.mp hrow.2).1

/-- A text that ends with blanks behind a carriage return gets a line end as it asks for one. -/
theorem breaks_lineEnd_of_blanks {before blanks : Text} (htext : text = before ++ '\r' :: blanks)
    (hne : blanks ≠ []) (hblanks : blanks.all isBlank = true) :
    breaks (lineEnd options text) = !(options.insertFinalNewline && hasCarriageReturns text) := by
  have hlast := List.getLast?_eq_some_getLast hne
  have htextLast : text.getLast? = some (blanks.getLast hne) := by
    rw [htext]
    exact Scan.getLast?_append_of_eq (Scan.getLast?_cons_of_eq hlast _) _
  exact breaks_lineEnd htextLast (List.all_eq_true.mp hblanks _ (List.getLast_mem hne))

theorem relapses_of_unsettled (hcut : Piece.Cut text mark pieces)
    (h : Unsettled options text (locate mark.size pieces)) :
    relapses (lineEnd options text) (tagged pieces) = true := by
  obtain ⟨-, before, c, blanks, after, htext, hblank, hne, hblanks, hstring, hafter⟩ := h
  have hle := mark_le_of_isBlank hcut htext hblank
  obtain ⟨between, rfl, hspell⟩ := Text.exists_between_of_size_le (hcut.eq.symm.trans htext) hle
  rw [← Piece.plain_tagged] at hspell
  obtain ⟨head, rest, htagged, rfl, hblankRest⟩ := exists_marked_append hspell
  obtain ⟨quoted, rest, rfl, hreturnRest⟩ := exists_marked_cons hblankRest
  obtain ⟨returned, rest, rfl, hrowRest⟩ := exists_marked_cons hreturnRest
  obtain ⟨row, tail, rfl, rfl, rfl⟩ := exists_marked_append hrowRest
  have hquoted := any_contains_strings htagged mark.size
  rw [← Text.size_append, hstring] at hquoted
  subst hquoted
  -- the blanks behind the carriage return belong to no string either
  have hall : (c :: plain (('\r', returned) :: row)).all Scan.isBlank = true := by
    change (Scan.isBlank c && (true && (plain row).all Scan.isBlank)) = true
    rw [isBlank_of_spacing hblank, spacing_all hblanks]
    rfl
  have hbehind : tagged pieces = head ++ (c, false) :: ((('\r', returned) :: row) ++ tail) := htagged
  have hrow : row = tag false (plain row) := eq_tag_of_forall fun item hmem =>
    untagged_of_row hcut hbehind hall item (List.mem_cons_of_mem _ hmem)
  refine relapses_iff.mpr ⟨head, c, _, htagged, hblank, stalls_iff.mpr
    ⟨[], returned, row ++ tail, rfl, rfl, ?_, ?_⟩⟩
  · obtain ⟨d, rest, hrest⟩ := List.exists_cons_of_ne_nil hne
    rw [plain_append, hrest]
    rw [hrest, List.all_cons, Bool.and_eq_true] at hblanks
    refine beq_eq_false_iff_ne.mpr ?_
    rintro rfl
    exact absurd hblanks.1 (by decide)
  · rw [hrow]
    refine vanishes_iff.mpr ⟨plain row, tail, rfl, hblanks, ?_⟩
    rcases hafter with hfeed | ⟨hnil, hinsert⟩
    · obtain ⟨rest, hrest⟩ := List.head?_eq_some_iff.mp hfeed
      left
      rw [hrest]
      refine ⟨rfl, ?_⟩
      rintro rfl
      cases hrest
    · right
      rw [hnil, List.append_nil, ← List.singleton_append, ← List.append_assoc] at htext
      rw [breaks_lineEnd_of_blanks htext hne hblanks, hinsert]
      exact ⟨List.map_eq_nil_iff.mp hnil, rfl⟩

theorem unsettled_of_relapses (hcut : Piece.Cut text mark pieces)
    (htrim : options.trimTrailingWhitespace = true)
    (h : relapses (lineEnd options text) (tagged pieces) = true) :
    Unsettled options text (locate mark.size pieces) := by
  obtain ⟨head, c, rest, htagged, hblank, hstalls⟩ := relapses_iff.mp h
  obtain ⟨row, returned, tail, rfl, hrow, hbreaks, hvanishes⟩ := stalls_iff.mp hstalls
  obtain ⟨blanks, after, rfl, hblanks, hafter⟩ := vanishes_iff.mp hvanishes
  -- the last blank in front of the carriage return
  obtain ⟨front, ⟨d, quoted⟩, hlast⟩ :=
    (List.eq_nil_or_concat ((c, false) :: row)).resolve_left (List.cons_ne_nil _ _)
  rw [List.concat_eq_append] at hlast
  have hall : (c :: plain row).all isBlank = true := Bool.and_eq_true_iff.mpr ⟨hblank, hrow⟩
  have hmem : (d, quoted) ∈ (c, false) :: row := by
    rw [hlast]
    simp
  have hd : isBlank d = true := List.all_eq_true.mp hall d (List.mem_map_of_mem (f := Prod.fst) hmem)
  have hquoted : quoted = false := by
    rcases List.mem_cons.mp hmem with hitem | hmem
    · exact (Prod.mk.inj hitem).2
    · exact untagged_of_row hcut htagged (spacing_all hall) _ hmem
  subst hquoted
  have htagged' : tagged pieces =
      (head ++ front) ++ (d, false) :: ('\r', returned) :: (tag false blanks ++ after) := by
    rw [htagged, ← List.cons_append, hlast]
    simp
  have htext : text =
      (mark ++ plain (head ++ front)) ++ d :: '\r' :: (blanks ++ plain after) := by
    have htext := eq_of_tagged hcut htagged'
    change text = _ ++ d :: '\r' :: plain (tag false blanks ++ after) at htext
    rwa [plain_append (tag false blanks), plain_tag] at htext
  have hne : blanks ≠ [] := by
    rintro rfl
    rw [plain_append] at hbreaks
    rcases hafter with ⟨hafter, -⟩ | ⟨rfl, -⟩
    · change breaks (plain after) = false at hbreaks
      rw [hafter] at hbreaks
      cases hbreaks
    · cases hbreaks
  refine ⟨htrim, _, d, blanks, plain after, htext, hd, hne, hblanks, ?_, ?_⟩
  · rw [Text.size_append]
    exact any_contains_strings htagged' mark.size
  · rcases hafter with ⟨hafter, hne⟩ | ⟨rfl, hfinal⟩
    · left
      obtain ⟨⟨e, marked⟩, after, rfl⟩ := List.exists_cons_of_ne_nil hne
      obtain rfl : e = '\n' := by simpa [plain, breaks] using hafter
      rfl
    · right
      rw [show plain ([] : List (Char × Bool)) = [] from rfl, List.append_nil, ← List.singleton_append,
        ← List.append_assoc] at htext
      rw [breaks_lineEnd_of_blanks htext hne hblanks, Bool.not_eq_true'] at hfinal
      exact ⟨rfl, hfinal⟩

/-- **Relapses in a text.** What a pass leaves for the next can be seen in the text. -/
theorem unsettled_iff (hcut : Piece.Cut text mark pieces) :
    Unsettled options text (locate mark.size pieces) ↔
      (options.trimTrailingWhitespace && relapses (lineEnd options text) (tagged pieces)) = true := by
  rw [Bool.and_eq_true]
  exact ⟨fun h => ⟨h.1, relapses_of_unsettled hcut h⟩,
    fun ⟨htrim, h⟩ => unsettled_of_relapses hcut htrim h⟩

end Spacing

end CSharpTidy
