import CSharpTidy.Proofs.Format.Applied
import CSharpTidy.Proofs.Format.Rescan

/-!
# One pass of the formatter

The formatter turns the pieces of a text into tidied ones. What a second pass would do can be told from
these: nothing behind keywords, nothing at the end of the file, and at the ends of lines only what the
first pass left there.
-/

namespace CSharpTidy

namespace Spacing

open Piece (spell tagged locate tokens Scanned)
open Edit (covers)

variable {text text' mark final : Text} {lineStart want trim quoted : Bool} {c : Char}
  {pieces pieces' gap others : List Piece} {marked head tail : List (Char × Bool)}
  {options : FormatSettings}

/-! ## First and last characters -/

theorem getLast?_spell_cons (piece : Piece) (h : (spell pieces').getLast? = (spell pieces).getLast?) :
    (spell (piece :: pieces')).getLast? = (spell (piece :: pieces)).getLast? := by
  rw [Piece.spell_cons, Piece.spell_cons, List.getLast?_append, List.getLast?_append, h]

theorem getLast?_regap (hscanned : Scanned [] lineStart pieces) (want : Bool) :
    (spell (regap want pieces)).getLast? = (spell pieces).getLast? := by
  have hbehind : ∀ {others : List Piece} {lineStart : Bool}, Scanned [] lineStart others →
      opensClause others = true → ∀ front : Text,
        (front ++ spell others).getLast? = (spell others).getLast? := by
    intro others lineStart hscanned hopens front
    obtain ⟨rest, hrest⟩ := spell_of_opensClause hscanned hopens
    rw [hrest, List.getLast?_append_of_ne_nil _ (List.cons_ne_nil _ _)]
  obtain hkept | ⟨hopens, hadded⟩ | ⟨gap, others, rfl, -, -, hopens, hremoved⟩ :=
    regap_cases want pieces
  · rw [hkept]
  · rw [hadded, Piece.spell_cons, hbehind hscanned hopens]
  · rw [hremoved, Piece.spell_append, hbehind (Piece.scanned_append.mp hscanned).2 hopens]

theorem getLast?_respace (hscanned : Scanned [] lineStart pieces) (want : Bool) :
    (spell (respace want pieces)).getLast? = (spell pieces).getLast? := by
  induction pieces generalizing lineStart with
  | nil => rfl
  | cons piece pieces ih =>
      cases piece with
      | blank c => exact getLast?_spell_cons _ (ih hscanned.2)
      | token kind lexeme =>
          rw [respace]
          refine getLast?_spell_cons _ ?_
          split
          · rw [getLast?_regap (scanned_respace hscanned.2 want).1, ih hscanned.2]
          · exact ih hscanned.2

theorem getLast?_strip (h : (plain marked).getLast? = some c) (hblank : isBlank c = false)
    (trim : Bool) : (plain (strip trim [] marked)).getLast? = some c := by
  obtain ⟨front, hfront⟩ := List.getLast?_eq_some_iff.mp h
  obtain ⟨first, last, rfl, -, hlast⟩ := exists_marked_append hfront
  obtain ⟨quoted, rest, rfl, hrest⟩ := exists_marked_cons hlast
  obtain rfl : rest = [] := List.map_eq_nil_iff.mp hrest
  rw [strip_append, strip_cons_of_not_isBlank hblank, plain_append]
  exact Scan.getLast?_append_of_eq rfl _

theorem head?_of_strip (hfinal : IsFinal final) (hblank : Scan.isBlank c = false)
    (h : (plain (strip trim [] marked) ++ final).head? = some c) : (plain marked).head? = some c := by
  induction marked with
  | nil =>
      rcases hfinal with rfl | rfl | rfl
      · cases h
      all_goals
        obtain rfl := Option.some.inj h
        exact absurd hblank (by decide)
  | cons item marked ih =>
      obtain ⟨d, quoted⟩ := item
      rw [strip] at h
      split at h
      · next hremoved =>
          -- what follows is blanks and the end of a line
          simp only [Bool.and_eq_true, List.append_nil] at hremoved
          obtain ⟨rest, hrest⟩ := List.head?_eq_some_iff.mp (ih h)
          have htrims := hremoved.2
          rw [hrest, trims_cons, if_neg (by simp [not_isBlank_of_scan hblank])] at htrims
          rw [ends, Scan.breaks, Scan.carriage, Bool.or_eq_true, Bool.and_eq_true, beq_iff_eq,
            beq_iff_eq] at htrims
          rcases htrims with rfl | ⟨rfl, -⟩ <;> exact absurd hblank (by decide)
      · exact h

theorem head?_respace (hscanned : Scanned [] lineStart pieces) (want : Bool) :
    (spell (respace want pieces)).head? = (spell pieces).head? := by
  cases pieces with
  | nil => rfl
  | cons piece pieces =>
      cases piece with
      | blank c => rfl
      | token kind lexeme =>
          obtain ⟨⟨c, tail, rfl, -⟩, -⟩ := hscanned
          rfl

theorem eq_nil_of_spell {rest : Text} (hscanned : Scanned rest lineStart pieces) (h : spell pieces = []) :
    pieces = [] := by
  cases pieces with
  | nil => rfl
  | cons piece pieces =>
      cases piece with
      | blank c => cases h
      | token kind lexeme =>
          obtain ⟨⟨c, tail, rfl, -⟩, -⟩ := hscanned
          cases h

/-! ## The outcome -/

/-- What one pass makes of a text that is cut into pieces. -/
structure Reshaped (options : FormatSettings) (text mark : Text) (pieces : List Piece)
    (text' : Text) (pieces' : List Piece) : Prop where
  applied : Edit.applyAll text (edits text (locate mark.size pieces) options) = .ok text'
  cut : Piece.Cut text' mark pieces'
  tidies : List.Forall₂ Tidies (tokens pieces) (tokens pieces')
  spaced : Spaced options.spaceAfterControlKeyword pieces'
  tagged_eq : tagged pieces' = strip options.trimTrailingWhitespace []
    (tagged (respace options.spaceAfterControlKeyword pieces)) ++ tag false (lineEnd options text)

/-- **The pass goes through.** The edits for a text that scans are accepted, and the text they give scans
into the same tokens, tidied. -/
theorem exists_reshaped (hcut : Piece.Cut text mark pieces) (options : FormatSettings) :
    ∃ text' pieces', Reshaped options text mark pieces text' pieces' := by
  have hfinal := isFinal_lineEnd options text
  obtain ⟨hscanned, -⟩ := scanned_respace hcut.scanned options.spaceAfterControlKeyword
  obtain ⟨pieces', htagged, hscanned', htidies, hspaced⟩ :=
    exists_tidied hfinal options.trimTrailingWhitespace hscanned
  have hspell : spell pieces' = plain (strip options.trimTrailingWhitespace []
      (tagged (respace options.spaceAfterControlKeyword pieces))) ++ lineEnd options text := by
    rw [← Piece.plain_tagged, htagged, plain_append, plain_tag]
  refine ⟨mark ++ spell pieces', pieces', ?_, ⟨rfl, hscanned', ?_⟩, ?_, ?_, htagged⟩
  · rw [applyAll_edits hcut, hspell]
  · rcases hcut.opens with hmark | ⟨rfl, hopens⟩
    · exact .inl hmark
    · refine .inr ⟨rfl, fun hhead => hopens ?_⟩
      rw [List.nil_append, hspell] at hhead
      have hhead' := head?_of_strip hfinal (by decide) hhead
      rwa [Piece.plain_tagged, head?_respace hcut.scanned, ← List.nil_append (spell pieces),
        ← hcut.eq] at hhead'
  · rwa [tokens_respace] at htidies
  · exact hspaced _ (spaced_respace hcut.scanned)

/-! ## The next pass -/

theorem strip_eq_self_iff {after : Text} :
    strip trim after marked = marked ↔ ∀ head c quoted tail, marked = head ++ (c, quoted) :: tail →
      (trim && isBlank c && !quoted && trims (plain tail ++ after)) = false := by
  induction marked with
  | nil =>
      refine ⟨fun _ head c quoted tail h => ?_, fun _ => rfl⟩
      cases head <;> cases h
  | cons item marked ih =>
      obtain ⟨d, quoted'⟩ := item
      rw [strip_cons_eq_self_iff, ih]
      constructor
      · rintro ⟨hfirst, hrest⟩ head c quoted tail h
        cases head with
        | nil =>
            obtain ⟨hitem, rfl⟩ := List.cons.inj h
            obtain ⟨rfl, rfl⟩ := Prod.mk.inj hitem
            exact hfirst
        | cons item head => exact hrest head c quoted tail (List.cons.inj h).2
      · intro h
        exact ⟨h [] d quoted' marked rfl, fun head c quoted tail hcut =>
          h ((d, quoted') :: head) c quoted tail (by rw [hcut]; rfl)⟩

theorem trailingEdits_eq_nil_iff (hcut : Piece.Cut text mark pieces) :
    trailingEdits (strings (locate mark.size pieces)) 0 text.lines = [] ↔
      strip true [] (tagged pieces) = tagged pieces := by
  constructor
  · intro hnone
    refine strip_eq_self_iff.mpr fun head c quoted tail htagged => ?_
    have hcovers := covers_trailing hcut htagged
    rw [hnone, Edit.covers_nil] at hcovers
    rw [Bool.true_and, List.append_nil, ← hcovers]
  · intro hsame
    refine List.eq_nil_iff_forall_not_mem.mpr fun edit hmem => ?_
    -- an edit covers its first blank, which then would have been stripped
    obtain ⟨before, blanks, after, htext, hne, hblanks, hends, hedit⟩ := mem_trailingEdits hmem
    rw [Nat.zero_add] at hedit
    obtain ⟨c, blanks, rfl⟩ := List.exists_cons_of_ne_nil hne
    have hle := mark_le_of_isBlank hcut (by rw [htext, List.cons_append])
      (Bool.and_eq_true_iff.mp hblanks).1
    obtain ⟨between, rfl, hspell⟩ := Text.exists_between_of_size_le (hcut.eq.symm.trans htext) hle
    rw [← Piece.plain_tagged] at hspell
    obtain ⟨head, rest, htagged, rfl, hrest⟩ := exists_marked_append hspell
    obtain ⟨quoted, tail, rfl, -⟩ := exists_marked_cons hrest
    have hnone := strip_eq_self_iff.mp hsame head c quoted tail htagged
    have hcovers := covers_trailing hcut htagged
    rw [List.append_nil, Bool.true_and] at hnone
    rw [hnone] at hcovers
    have hpos := c.utf8Size_pos
    have hcovered : covers (trailingEdits (strings (locate mark.size pieces)) 0 text.lines)
        (mark.size + Text.size (plain head)) = true := by
      refine List.any_eq_true.mpr ⟨edit, hmem, ?_⟩
      rw [hedit, Span.contains, Edit.delete, Bool.and_eq_true, decide_eq_true_eq, decide_eq_true_eq,
        Text.size_append]
      simp only [Text.size_cons]
      omega
    rw [hcovered] at hcovers
    cases hcovers

theorem sort_eq_nil_iff {edits : List Edit} : Edit.sort edits = [] ↔ edits = [] := by
  constructor
  · intro h
    have hperm := Edit.sort_perm edits
    rw [h] at hperm
    exact List.nil_perm.mp hperm
  · rintro rfl
    exact List.mergeSort_nil

/-- There is nothing to do where there is nothing to do behind keywords, at the ends of lines and at the
end of the file. -/
theorem edits_eq_nil_iff (hcut : Piece.Cut text mark pieces) :
    edits text (locate mark.size pieces) options = [] ↔
      keywordEdits text options.spaceAfterControlKeyword (locate mark.size pieces) = [] ∧
        strip options.trimTrailingWhitespace [] (tagged pieces) = tagged pieces ∧
          lineEnd options text = [] := by
  have htrailing : (if options.trimTrailingWhitespace then
      trailingEdits (strings (locate mark.size pieces)) 0 text.lines else []) = [] ↔
        strip options.trimTrailingWhitespace [] (tagged pieces) = tagged pieces := by
    cases options.trimTrailingWhitespace with
    | true => exact trailingEdits_eq_nil_iff hcut
    | false => simp [strip_false]
  have hlineEnd : (if options.insertFinalNewline then (finalNewlineEdit? text).toList else []) = [] ↔
      lineEnd options text = [] := by
    rw [lineEnd]
    split
    · unfold finalNewlineEdit? Edit.insert
      repeat' split
      all_goals simp
    · simp
  rw [edits_eq, sort_eq_nil_iff, lineEndEdits, List.append_eq_nil_iff, List.append_eq_nil_iff,
    htrailing, hlineEnd]

theorem lineEnd_eq_nil_iff : lineEnd options text = [] ↔
    (options.insertFinalNewline = true → text = [] ∨ text.getLast? = some '\n') := by
  have hadded : (if hasCarriageReturns text then ['\r', '\n'] else ['\n']) ≠ [] := by
    split <;> simp
  rw [lineEnd_eq]
  simp [hadded, or_iff_not_imp_left]

theorem Reshaped.lineEnd_eq_nil (h : Reshaped options text mark pieces text' pieces')
    (hcut : Piece.Cut text mark pieces) : lineEnd options text' = [] := by
  have hspell : spell pieces' = plain (strip options.trimTrailingWhitespace []
      (tagged (respace options.spaceAfterControlKeyword pieces))) ++ lineEnd options text := by
    rw [← Piece.plain_tagged, h.tagged_eq, plain_append, plain_tag]
  refine lineEnd_eq_nil_iff.mpr fun hinsert => ?_
  rw [h.cut.eq, hspell]
  rcases isFinal_lineEnd options text with hnone | hline | hline
  · rw [hnone, List.append_nil]
    rcases lineEnd_eq_nil_iff.mp hnone hinsert with rfl | hlast
    · -- an empty text stays empty
      obtain ⟨rfl, hempty⟩ := List.append_eq_nil_iff.mp hcut.eq.symm
      obtain rfl := eq_nil_of_spell hcut.scanned hempty
      exact .inl rfl
    · right
      have hne : spell pieces ≠ [] := by
        intro hempty
        rw [hcut.eq, hempty, List.append_nil] at hlast
        rcases hcut.opens with rfl | ⟨rfl, -⟩
        · exact absurd hlast (by decide)
        · cases hlast
      rw [hcut.eq, List.getLast?_append_of_ne_nil _ hne,
        ← getLast?_respace hcut.scanned options.spaceAfterControlKeyword,
        ← Piece.plain_tagged] at hlast
      exact Scan.getLast?_append_of_eq (getLast?_strip hlast rfl _) mark
  all_goals
    right
    rw [hline]
    exact Scan.getLast?_append_of_eq (Scan.getLast?_append_of_eq rfl _) mark

/-- **What a second pass does.** It finds edits just where blanks have come to the end of a line. -/
theorem Reshaped.edits_eq_nil_iff (h : Reshaped options text mark pieces text' pieces')
    (hcut : Piece.Cut text mark pieces) :
    edits text' (locate mark.size pieces') options = [] ↔
      (options.trimTrailingWhitespace &&
        relapses (lineEnd options text)
          (tagged (respace options.spaceAfterControlKeyword pieces))) = false := by
  rw [Spacing.edits_eq_nil_iff h.cut, h.lineEnd_eq_nil hcut,
    keywordEdits_eq_nil mark h.cut.scanned h.cut.eq h.spaced, h.tagged_eq]
  simp only [true_and, and_true]
  cases options.trimTrailingWhitespace with
  | true => rw [strip_strip_eq_self_iff (isFinal_lineEnd options text), Bool.true_and]
  | false => simp [strip_false]

/-- **A third pass does nothing.** Blanks come to the end of a line in the first pass only. -/
theorem Reshaped.edits_twice_eq_nil {text'' : Text} {pieces'' : List Piece}
    (h : Reshaped options text mark pieces text' pieces')
    (h' : Reshaped options text' mark pieces' text'' pieces'') (hcut : Piece.Cut text mark pieces) :
    edits text'' (locate mark.size pieces'') options = [] := by
  rw [h'.edits_eq_nil_iff h.cut, h.lineEnd_eq_nil hcut, respace_eq_self h.cut.scanned h.spaced,
    h.tagged_eq]
  cases options.trimTrailingWhitespace with
  | true => rw [relapses_strip (isFinal_lineEnd options text), Bool.and_false]
  | false => rfl

/-! ## A text that stays -/

theorem eq_of_spell (hscanned : Scanned [] lineStart pieces)
    (hscanned' : Scanned [] lineStart pieces') (h : spell pieces = spell pieces') :
    pieces = pieces' := by
  induction pieces generalizing lineStart pieces' with
  | nil => exact (eq_nil_of_spell hscanned' h.symm).symm
  | cons piece pieces ih =>
      cases pieces' with
      | nil => exact eq_nil_of_spell hscanned h
      | cons piece' pieces' =>
          cases piece with
          | blank c =>
              cases piece' with
              | blank d =>
                  obtain ⟨rfl, hrest⟩ := List.cons.inj h
                  rw [ih hscanned.2 hscanned'.2 hrest]
              | token kind lexeme =>
                  obtain ⟨⟨d, tail, rfl, hblank, -⟩, -⟩ := hscanned'
                  obtain ⟨rfl, -⟩ := List.cons.inj h
                  rw [hscanned.1] at hblank
                  cases hblank
          | token kind lexeme =>
              obtain ⟨⟨c, tail, rfl, hblank, hhead⟩, hrest⟩ := hscanned
              cases piece' with
              | blank d =>
                  obtain ⟨rfl, -⟩ := List.cons.inj h
                  rw [hscanned'.1] at hblank
                  cases hblank
              | token kind' lexeme' =>
                  -- the scanner takes the same token from the same text
                  obtain ⟨⟨d, tail', rfl, -, hhead'⟩, hrest'⟩ := hscanned'
                  obtain ⟨rfl, htext⟩ := List.cons.inj h
                  change tail ++ spell pieces = tail' ++ spell pieces' at htext
                  rw [List.append_nil, htext] at hhead
                  rw [List.append_nil, hhead, Except.ok.injEq, Prod.mk.injEq] at hhead'
                  obtain ⟨rfl, hlength⟩ := hhead'
                  obtain ⟨rfl, hspell⟩ := List.append_inj htext hlength
                  rw [ih hrest hrest' hspell]

/-- **Edits change a text.** Where the formatter leaves a text as it is there were no edits. -/
theorem Reshaped.eq_self_iff (h : Reshaped options text mark pieces text' pieces')
    (hcut : Piece.Cut text mark pieces) :
    text' = text ↔ edits text (locate mark.size pieces) options = [] := by
  constructor
  · intro hsame
    have hspell : spell pieces' = spell pieces := by
      have htext := h.cut.eq
      rw [hsame, hcut.eq] at htext
      exact (List.append_cancel_left htext).symm
    obtain rfl := eq_of_spell h.cut.scanned hcut.scanned hspell
    have hrespace := respace_eq_self hcut.scanned h.spaced
    have htagged := h.tagged_eq
    rw [hrespace] at htagged
    have hlineEnd := h.lineEnd_eq_nil hcut
    rw [hsame] at hlineEnd
    rw [hlineEnd] at htagged
    change tagged pieces' = _ ++ [] at htagged
    rw [List.append_nil] at htagged
    exact (Spacing.edits_eq_nil_iff hcut).mpr
      ⟨keywordEdits_eq_nil mark hcut.scanned hcut.eq h.spaced, htagged.symm, hlineEnd⟩
  · intro hnone
    have happlied := h.applied
    rw [hnone, Edit.applyAll_eq_rewrite (fun _ hmem => by cases hmem) .nil,
      Edit.rewrite_nil, Except.ok.injEq] at happlied
    exact happlied.symm

end Spacing

end CSharpTidy
