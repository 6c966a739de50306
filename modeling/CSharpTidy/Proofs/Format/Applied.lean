import CSharpTidy.Proofs.Format.Rewritten

/-!
# The edits of the formatter are accepted

No two edits of the formatter meet: those behind keywords stand in front of a parenthesis, those at the
ends of lines do not, and the one at the end of the file comes last. So they are accepted together, and
give the text that the rewriting gives.
-/

namespace CSharpTidy

namespace Spacing

open Piece (spell tagged locate Scanned width)
open Edit (rewrite inserted covers)

variable {text before mark : Text} {lineStart : Bool} {pieces : List Piece} {offset : Nat}
  {edit first second : Edit} {options : FormatSettings}

def InGap (text : Text) (edit : Edit) : Prop :=
  ∃ before gap rest, text = before ++ (gap ++ '(' :: rest) ∧
    edit.span = ⟨before.size, before.size + gap.size⟩ ∧ gap.all isBlank = true ∧
      ∃ last ∈ before.getLast?, isBlank last = false

def AtLineEnd (text : Text) (edit : Edit) : Prop :=
  ∃ before blanks after, text = before ++ (blanks ++ after) ∧ blanks ≠ [] ∧
    blanks.all isBlank = true ∧ ends after = true ∧
      edit = .delete ⟨before.size, before.size + blanks.size⟩

theorem InGap.fits (h : InGap text edit) : edit.Fits text := by
  obtain ⟨before, gap, rest, htext, hspan, -, -⟩ := h
  exact ⟨before, gap, '(' :: rest, htext, hspan⟩

theorem AtLineEnd.fits (h : AtLineEnd text edit) : edit.Fits text := by
  obtain ⟨before, blanks, after, htext, -, -, -, rfl⟩ := h
  exact ⟨before, blanks, after, htext, rfl⟩

theorem not_isBlank_of_ends {after : Text} (h : ends after = true) :
    ∀ c ∈ after.head?, isBlank c = false ∧ c ≠ '(' := by
  intro c hmem
  cases after with
  | nil => cases hmem
  | cons d after =>
      obtain rfl : d = c := by simpa using hmem
      rw [ends, Scan.breaks, Scan.carriage, Bool.or_eq_true, Bool.and_eq_true, beq_iff_eq,
        beq_iff_eq] at h
      rcases h with rfl | ⟨rfl, -⟩ <;> decide

theorem stop_le_of_lt {before' blanks after rest : Text} {last : Char}
    (htext : before' ++ (blanks ++ after) = before ++ rest) (hlt : before'.size < before.size)
    (hlast : last ∈ before.getLast?) (hword : isBlank last = false)
    (hblanks : blanks.all isBlank = true) : before'.size + blanks.size ≤ before.size := by
  obtain ⟨between, rfl, hbetween⟩ := Text.exists_between_of_size_le htext (Nat.le_of_lt hlt)
  rw [Text.size_append] at hlt ⊢
  refine Nat.le_of_not_lt fun hlong => ?_
  obtain ⟨between', rfl, -⟩ := Text.exists_between_of_size_le hbetween.symm (by omega)
  have hmem : last ∈ between := by
    have hne : between ≠ [] := by
      rintro rfl
      simp at hlt
    rw [Option.mem_def, List.getLast?_append_of_ne_nil _ hne] at hlast
    exact List.mem_of_getLast? hlast
  rw [List.all_append, Bool.and_eq_true] at hblanks
  rw [List.all_eq_true.mp hblanks.1 last hmem] at hword
  cases hword

theorem stop_le_of_le {before' gap blanks after rest : Text}
    (htext : before ++ (gap ++ '(' :: rest) = before' ++ (blanks ++ after))
    (hle : before.size ≤ before'.size) (hgap : gap.all isBlank = true)
    (hblanks : blanks.all isBlank = true) (hends : ends after = true) :
    before.size + gap.size ≤ before'.size := by
  obtain ⟨between, rfl, hbetween⟩ := Text.exists_between_of_size_le htext hle
  rw [Text.size_append]
  refine Nat.add_le_add_left (Nat.le_of_not_lt fun hshort => ?_) _
  obtain ⟨between', rfl, hrest⟩ :=
    Text.exists_between_of_size_le hbetween.symm (Nat.le_of_lt hshort)
  rcases Nat.lt_or_ge between'.size blanks.size with hlt | hge
  · -- the parenthesis would be one of the blanks
    obtain ⟨inner, rfl, hinner⟩ := Text.exists_between_of_size_le hrest.symm (Nat.le_of_lt hlt)
    cases inner with
    | nil => simp at hlt
    | cons c inner =>
        obtain ⟨rfl, -⟩ := List.cons.inj hinner
        exact absurd (List.all_eq_true.mp hblanks '(' (by simp)) (by decide)
  · -- the line would end in the gap or at the parenthesis
    obtain ⟨inner, rfl, rfl⟩ := Text.exists_between_of_size_le hrest hge
    have hhead := not_isBlank_of_ends hends
    cases inner with
    | nil => exact (hhead '(' rfl).2 rfl
    | cons c inner =>
        have hc := List.all_eq_true.mp hgap c (by simp)
        rw [(hhead c rfl).1] at hc
        cases hc

theorem InGap.apart (h : InGap text first) (h' : AtLineEnd text second) : first.Apart second := by
  obtain ⟨before, gap, rest, htext, hspan, hgap, last, hlast, hword⟩ := h
  obtain ⟨before', blanks, after, htext', hne, hblanks, hends, rfl⟩ := h'
  rw [htext] at htext'
  rcases Nat.lt_or_ge before'.size before.size with hlt | hle
  · -- the line ends in front of the word before the gap
    right
    refine ⟨by rw [hspan]; exact hlt, ?_⟩
    rw [hspan]
    exact stop_le_of_lt htext'.symm hlt hlast hword hblanks
  · -- the blanks begin behind the gap
    left
    have hlong := stop_le_of_le htext' hle hgap hblanks hends
    refine ⟨?_, by rw [hspan]; exact hlong⟩
    rw [hspan]
    refine Nat.lt_of_le_of_ne hle fun hsame => ?_
    change before.size = before'.size at hsame
    obtain rfl : gap = [] := Text.size_eq_zero.mp (by omega)
    obtain ⟨between, rfl, hbetween⟩ := Text.exists_between_of_size_le htext' hle
    obtain rfl : between = [] := Text.size_eq_zero.mp (by rw [Text.size_append] at hsame; omega)
    cases blanks with
    | nil => exact hne rfl
    | cons c blanks =>
        obtain ⟨rfl, -⟩ := List.cons.inj hbetween
        exact absurd (List.all_eq_true.mp hblanks '(' List.mem_cons_self) (by decide)

theorem keywordEdits_inGap (want : Bool) (before : Text) (hscanned : Scanned [] lineStart pieces)
    (htext : text = before ++ spell pieces) :
    (∀ edit ∈ keywordEdits text want (locate before.size pieces), InGap text edit) ∧
      (keywordEdits text want (locate before.size pieces)).Pairwise Edit.Precedes := by
  induction pieces generalizing before lineStart with
  | nil => exact ⟨fun _ hmem => absurd hmem List.not_mem_nil, .nil⟩
  | cons piece pieces ih =>
      cases piece with
      | blank c =>
          have hrest := ih (before ++ [c]) hscanned.2 (by rw [htext, List.append_assoc]; rfl)
          rw [Text.size_append] at hrest
          exact hrest
      | token kind lexeme =>
          -- the induction skips the gap as blanks, since only a token comes with an edit
          obtain ⟨gap, others, rfl, hgap, hothers⟩ := exists_gap pieces
          obtain ⟨hinGap, hpairwise⟩ := ih (before ++ lexeme) hscanned.2
            (by rw [htext, List.append_assoc]; rfl)
          have hcut : text = before ++ (lexeme ++ (spell gap ++ spell others)) := by
            rw [htext, Piece.spell_cons, Piece.spell_append]
            rfl
          rw [Text.size_append] at hinGap hpairwise
          rw [keywordEdits_token hgap hothers hcut]
          split
          · next hclause =>
              obtain ⟨hspaced, hclause⟩ := Bool.and_eq_true_iff.mp hclause
              cases hedit : gapEdit? want (before.size + lexeme.size) (spell gap) with
              | none => exact ⟨hinGap, hpairwise⟩
              | some edit =>
                  obtain ⟨hspan, hblank⟩ := span_of_gapEdit? hedit
                  obtain ⟨rest, hrest⟩ :=
                    spell_of_opensClause (Piece.scanned_append.mp hscanned.2).2 hclause
                  rw [Option.toList_some, List.singleton_append]
                  refine ⟨fun edit' hmem => ?_, List.pairwise_cons.mpr ⟨fun later hmem => ?_, hpairwise⟩⟩
                  · rcases List.mem_cons.mp hmem with rfl | hmem
                    · refine ⟨before ++ lexeme, spell gap, rest, ?_, ?_, hblank, ?_⟩
                      · rw [hcut, hrest, List.append_assoc]
                      · rw [hspan, Text.size_append]
                      · have hletters := not_isBlank_of_isSpaced hspaced
                        obtain ⟨-, c, tail, rfl, -⟩ := exists_letters hspaced
                        obtain ⟨last, hlast⟩ := Option.ne_none_iff_exists'.mp fun hnone =>
                          List.cons_ne_nil c tail (List.getLast?_eq_none_iff.mp hnone)
                        exact ⟨last, Scan.getLast?_append_of_eq hlast before,
                          hletters last (List.mem_of_getLast? hlast)⟩
                    · exact hinGap edit' hmem
                  · -- later edits stand behind a token, and the gap holds none
                    rw [locate_gap hgap] at hmem
                    have hlater := lt_start_of_mem_keywordEdits later hmem
                    rw [Edit.Precedes, hspan]
                    change before.size + lexeme.size < _ ∧
                      before.size + lexeme.size + width gap ≤ _
                    omega
          · exact ⟨hinGap, hpairwise⟩

/-! ## All edits -/

def lineEnd (options : FormatSettings) (text : Text) : Text :=
  if options.insertFinalNewline then ((finalNewlineEdit? text).map Edit.replacement).getD [] else []

theorem lineEnd_eq (options : FormatSettings) (text : Text) :
    lineEnd options text =
      if options.insertFinalNewline && !(text.isEmpty || text.getLast? == some '\n') then
        if hasCarriageReturns text then ['\r', '\n'] else ['\n']
      else [] := by
  unfold lineEnd finalNewlineEdit?
  cases options.insertFinalNewline with
  | false => rfl
  | true => cases text.isEmpty || text.getLast? == some '\n' <;> rfl

theorem isFinal_lineEnd (options : FormatSettings) (text : Text) : IsFinal (lineEnd options text) := by
  rw [lineEnd_eq]
  split_ifs <;> simp [IsFinal]

/-- The edits at the ends of lines and at the end of the file. -/
def lineEndEdits (options : FormatSettings) (text : Text) (tokens : List Token) : List Edit :=
  (if options.trimTrailingWhitespace then trailingEdits (strings tokens) 0 text.lines else []) ++
    if options.insertFinalNewline then (finalNewlineEdit? text).toList else []

theorem edits_eq (text : Text) (tokens : List Token) (options : FormatSettings) :
    edits text tokens options =
      Edit.sort (keywordEdits text options.spaceAfterControlKeyword tokens ++
        lineEndEdits options text tokens) := by
  unfold edits lineEndEdits strings
  simp only [List.append_assoc]

theorem atLineEnd_of_mem {tokens : List Token}
    (h : edit ∈ trailingEdits (strings tokens) 0 text.lines) : AtLineEnd text edit := by
  obtain ⟨before, blanks, after, htext, hne, hblanks, hends, hedit⟩ := mem_trailingEdits h
  rw [Nat.zero_add] at hedit
  exact ⟨before, blanks, after, htext, hne, hblanks, hends, hedit⟩

theorem span_of_finalNewlineEdit? (h : finalNewlineEdit? text = some edit) :
    edit.span = ⟨text.size, text.size⟩ ∧ text ≠ [] := by
  unfold finalNewlineEdit? at h
  split at h
  · cases h
  · next hopen =>
      cases h
      refine ⟨rfl, ?_⟩
      rintro rfl
      simp at hopen

theorem precedes_final (hfinal : finalNewlineEdit? text = some second)
    (h : InGap text first ∨ AtLineEnd text first) : first.Precedes second := by
  rw [Edit.Precedes, (span_of_finalNewlineEdit? hfinal).1]
  rcases h with ⟨before, gap, rest, rfl, hspan, -⟩ | ⟨before, blanks, after, rfl, hne, -, -, rfl⟩
  · have hclause : 0 < Char.utf8Size '(' := Char.utf8Size_pos _
    rw [hspan]
    simp only [Text.size_append, Text.size_cons]
    omega
  · have hpos := Text.size_pos hne
    simp only [Edit.delete, Text.size_append]
    omega

theorem mem_lineEndEdits {tokens : List Token} (h : edit ∈ lineEndEdits options text tokens) :
    AtLineEnd text edit ∨ finalNewlineEdit? text = some edit := by
  rcases List.mem_append.mp h with h | h
  · left
    split at h
    · exact atLineEnd_of_mem h
    · cases h
  · right
    split at h
    · exact Option.mem_toList.mp h
    · cases h

theorem pairwise_lineEndEdits (options : FormatSettings) (text : Text) (tokens : List Token) :
    (lineEndEdits options text tokens).Pairwise Edit.Precedes := by
  refine List.pairwise_append.mpr ⟨?_, ?_, fun first hfirst second hsecond => ?_⟩
  · split
    · exact pairwise_trailingEdits _ _ _
    · exact .nil
  · split
    · cases finalNewlineEdit? text with
      | none => exact .nil
      | some edit => exact List.pairwise_singleton _ _
    · exact .nil
  · split at hfirst
    · split at hsecond
      · exact precedes_final (Option.mem_toList.mp hsecond) (.inr (atLineEnd_of_mem hfirst))
      · cases hsecond
    · cases hfirst

theorem fits_edits (hcut : Piece.Cut text mark pieces) (options : FormatSettings) :
    ∀ edit ∈ edits text (locate mark.size pieces) options, edit.Fits text := by
  intro edit hmem
  rw [edits_eq, (Edit.sort_perm _).mem_iff, List.mem_append] at hmem
  rcases hmem with hmem | hmem
  · exact ((keywordEdits_inGap _ mark hcut.scanned hcut.eq).1 edit hmem).fits
  · rcases mem_lineEndEdits hmem with hedit | hedit
    · exact hedit.fits
    · exact ⟨text, [], [], by simp, by rw [(span_of_finalNewlineEdit? hedit).1]; rfl⟩

theorem apart_edits (hcut : Piece.Cut text mark pieces) (options : FormatSettings) :
    (keywordEdits text options.spaceAfterControlKeyword (locate mark.size pieces) ++
      lineEndEdits options text (locate mark.size pieces)).Pairwise Edit.Apart := by
  have hkeyword := keywordEdits_inGap options.spaceAfterControlKeyword mark hcut.scanned hcut.eq
  obtain ⟨hinGap, hpairwise⟩ := hkeyword
  refine List.pairwise_append.mpr ⟨hpairwise.imp .inl,
    (pairwise_lineEndEdits options text _).imp .inl, fun first hfirst second hsecond => ?_⟩
  rcases mem_lineEndEdits hsecond with hsecond | hsecond
  · exact (hinGap first hfirst).apart hsecond
  · exact .inl (precedes_final hsecond (.inl (hinGap first hfirst)))

/-- What edits do at each place makes them a guide. -/
theorem Guides.of_forall {guide : List Edit} {final : Text} {trim : Bool}
    {marked : List (Char × Bool)}
    (hitems : ∀ head c quoted tail, marked = head ++ (c, quoted) :: tail →
      inserted guide (offset + Text.size (plain head)) = [] ∧
        covers guide (offset + Text.size (plain head)) =
          (trim && isBlank c && !quoted && trims (plain tail)))
    (hend : inserted guide (offset + Text.size (plain marked)) = final) :
    Guides trim final guide offset marked := by
  induction marked generalizing offset with
  | nil => exact hend
  | cons item marked ih =>
      obtain ⟨c, quoted⟩ := item
      obtain ⟨hinserted, hcovers⟩ := hitems [] c quoted marked rfl
      refine ⟨hinserted, hcovers, ih (fun head d quoted' tail hcut => ?_) ?_⟩
      · have hnext := hitems ((c, quoted) :: head) d quoted' tail (by rw [hcut]; rfl)
        rw [Nat.add_assoc]
        exact hnext
      · rw [Nat.add_assoc]
        exact hend

theorem inserted_trailingEdits (strings : List Span) (text : Text) (offset : Nat) :
    inserted (trailingEdits strings 0 text.lines) offset = [] := by
  rw [inserted, List.flatMap_eq_nil_iff]
  intro edit hmem
  obtain ⟨_, _, _, -, -, -, -, rfl⟩ := mem_trailingEdits (List.mem_filter.mp hmem).1
  rfl

theorem inserted_lineEndEdits (options : FormatSettings) (text : Text) (tokens : List Token)
    (offset : Nat) :
    inserted (lineEndEdits options text tokens) offset =
      if offset = text.size then lineEnd options text else [] := by
  have htrailing : inserted (if options.trimTrailingWhitespace then
      trailingEdits (strings tokens) 0 text.lines else []) offset = [] := by
    split
    · exact inserted_trailingEdits _ text offset
    · rfl
  rw [lineEndEdits, Edit.inserted_append, htrailing, List.nil_append, lineEnd]
  split
  · cases hfinal : finalNewlineEdit? text with
    | none => simp
    | some edit =>
        have hspan := (span_of_finalNewlineEdit? hfinal).1
        by_cases hoffset : offset = text.size
        · simp [inserted, hspan, hoffset]
        · have hne : ¬text.size = offset := fun h => hoffset h.symm
          simp [inserted, hspan, hoffset, hne]
  · simp

theorem covers_lineEndEdits (options : FormatSettings) (text : Text) (tokens : List Token)
    (offset : Nat) :
    covers (lineEndEdits options text tokens) offset =
      (options.trimTrailingWhitespace &&
        covers (trailingEdits (strings tokens) 0 text.lines) offset) := by
  have hfinal : covers (if options.insertFinalNewline then (finalNewlineEdit? text).toList else [])
      offset = false := by
    refine Edit.covers_eq_false fun edit hmem => ?_
    split at hmem
    · rw [(span_of_finalNewlineEdit? (Option.mem_toList.mp hmem)).1]
      simp only
      omega
    · cases hmem
  rw [lineEndEdits, Edit.covers_append, hfinal, Bool.or_false]
  cases options.trimTrailingWhitespace <;> rfl

theorem eq_of_tagged {head tail : List (Char × Bool)} {c : Char} {quoted : Bool}
    (hcut : Piece.Cut text mark pieces) (htagged : tagged pieces = head ++ (c, quoted) :: tail) :
    text = (mark ++ plain head) ++ c :: plain tail := by
  rw [hcut.eq, ← Piece.plain_tagged, htagged, plain_append, List.append_assoc]
  rfl

/-- What the edits at the ends of lines cover, told by the marks. -/
theorem covers_trailing {head tail : List (Char × Bool)} {c : Char} {quoted : Bool}
    (hcut : Piece.Cut text mark pieces) (htagged : tagged pieces = head ++ (c, quoted) :: tail) :
    covers (trailingEdits (strings (locate mark.size pieces)) 0 text.lines)
        (mark.size + Text.size (plain head)) =
      (isBlank c && !quoted && trims (plain tail)) := by
  have hcovers := covers_trailingEdits (strings (locate mark.size pieces)) 0 (mark ++ plain head)
    c (plain tail)
  rw [← eq_of_tagged hcut htagged, Nat.zero_add, Nat.zero_add, Text.size_append] at hcovers
  rw [hcovers]
  by_cases hblank : isBlank c = true
  · rw [any_contains_trimmed hcut.scanned htagged hblank, hblank]
    cases quoted <;> simp
  · simp [hblank]

theorem guides_lineEndEdits (hcut : Piece.Cut text mark pieces) (options : FormatSettings) :
    Guides options.trimTrailingWhitespace (lineEnd options text)
      (lineEndEdits options text (locate mark.size pieces)) mark.size (tagged pieces) := by
  refine Guides.of_forall (fun head c quoted tail htagged => ⟨?_, ?_⟩) ?_
  · have hpos := c.utf8Size_pos
    rw [inserted_lineEndEdits, if_neg]
    rw [eq_of_tagged hcut htagged, Text.size_append (mark ++ plain head), Text.size_append,
      Text.size_cons]
    omega
  · rw [covers_lineEndEdits, covers_trailing hcut htagged, Bool.and_assoc, Bool.and_assoc,
      Bool.and_assoc]
  · rw [Piece.plain_tagged, inserted_lineEndEdits, if_pos]
    rw [hcut.eq, Text.size_append]

theorem mark_le_of_isBlank {c : Char} {rest : Text} (hcut : Piece.Cut text mark pieces)
    (htext : text = before ++ c :: rest) (hblank : isBlank c = true) : mark.size ≤ before.size := by
  refine Nat.le_of_not_lt fun hlt => ?_
  obtain ⟨between, hmark, hbetween⟩ := Text.exists_between_of_size_le
    (htext.symm.trans hcut.eq) (Nat.le_of_lt hlt)
  cases between with
  | nil =>
      rw [hmark, List.append_nil] at hlt
      exact absurd hlt (Nat.lt_irrefl _)
  | cons d between =>
      obtain ⟨rfl, -⟩ := List.cons.inj hbetween
      have hc : c ∈ mark := by
        rw [hmark]
        simp
      rcases hcut.opens with rfl | ⟨rfl, -⟩
      · obtain rfl : c = byteOrderMark := List.mem_singleton.mp hc
        exact absurd hblank (by decide)
      · cases hc

theorem le_start_of_mem_edits (hcut : Piece.Cut text mark pieces) (options : FormatSettings) :
    ∀ edit ∈ edits text (locate mark.size pieces) options, mark.size ≤ edit.span.start := by
  intro edit hmem
  rw [edits_eq, (Edit.sort_perm _).mem_iff, List.mem_append] at hmem
  rcases hmem with hmem | hmem
  · exact Nat.le_of_lt (lt_start_of_mem_keywordEdits edit hmem)
  · rcases mem_lineEndEdits hmem with ⟨before, blanks, after, htext, hne, hblanks, -, rfl⟩ | hedit
    · obtain ⟨c, blanks, rfl⟩ := List.exists_cons_of_ne_nil hne
      exact mark_le_of_isBlank hcut (by rw [htext, List.cons_append])
        (Bool.and_eq_true_iff.mp hblanks).1
    · rw [(span_of_finalNewlineEdit? hedit).1, hcut.eq, Text.size_append]
      exact Nat.le_add_right _ _

/-- **What the formatter makes of a text.** Its edits are accepted, and they give the text that its
pieces spell with their gaps set right and trimmed, and the line end. -/
theorem applyAll_edits (hcut : Piece.Cut text mark pieces) (options : FormatSettings) :
    Edit.applyAll text (edits text (locate mark.size pieces) options) =
      .ok (mark ++ (plain (strip options.trimTrailingWhitespace []
        (tagged (respace options.spaceAfterControlKeyword pieces))) ++ lineEnd options text)) := by
  have hperm := Edit.sort_perm (keywordEdits text options.spaceAfterControlKeyword
    (locate mark.size pieces) ++ lineEndEdits options text (locate mark.size pieces))
  have hapart := apart_edits hcut options
  have hsorted : (edits text (locate mark.size pieces) options).Pairwise Edit.Apart := by
    rw [edits_eq]
    exact hperm.symm.pairwise hapart fun h => h.symm
  rw [Edit.applyAll_eq_rewrite (fits_edits hcut options) hsorted]
  have hstart := le_start_of_mem_edits hcut options
  have hkept : rewrite (edits text (locate mark.size pieces) options) 0 (mark ++ spell pieces) =
      mark ++ rewrite (edits text (locate mark.size pieces) options) (0 + mark.size)
        (spell pieces) :=
    Edit.rewrite_kept fun edit hmem => by
      have := hstart edit hmem
      omega
  rw [← hcut.eq, Nat.zero_add] at hkept
  rw [hkept, edits_eq, Edit.rewrite_perm hperm (hperm.symm.pairwise hapart fun h => h.symm),
    rewrite_pieces mark hcut.scanned (guides_lineEndEdits hcut options) hcut.eq]

end Spacing

end CSharpTidy
