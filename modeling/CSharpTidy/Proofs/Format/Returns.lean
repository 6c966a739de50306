import CSharpTidy.Proofs.Format.Code
import CSharpTidy.Proofs.Format.Parts
import CSharpTidy.Proofs.Tree.Returns

/-!
# Formatting texts with other line ends

The formatter counts a carriage return in front of a line feed to the end of its line, and takes it
neither for a blank to trim nor for one between a keyword and its parenthesis. So a text with carriage
returns is formatted as the text without. The line end that is added to a file is like those it has,
and therefore the file has to have one.
-/

namespace CSharpTidy

namespace Spacing

open Piece (spell tagged)

variable {c : Char} {quoted trim want : Bool} {text : Text} {marked : List (Char × Bool)}
  {kind : TokenKind} {lexeme : Text} {pieces gap others : List Piece} {options : FormatSettings}

/-! ## Trimming -/

/-- Marked characters with carriage returns in front of their line feeds, marked like them. -/
def crlfMarked (marked : List (Char × Bool)) : List (Char × Bool) :=
  marked.flatMap fun item => tag item.2 (Text.crlfChar item.1)

theorem crlfMarked_feed (quoted : Bool) (marked : List (Char × Bool)) :
    crlfMarked (('\n', quoted) :: marked) = ('\r', quoted) :: ('\n', quoted) :: crlfMarked marked := rfl

theorem crlfMarked_cons (hc : c ≠ '\n') (quoted : Bool) (marked : List (Char × Bool)) :
    crlfMarked ((c, quoted) :: marked) = (c, quoted) :: crlfMarked marked := by
  rw [crlfMarked, List.flatMap_cons, Text.crlfChar, if_neg hc]
  rfl

@[simp] theorem crlfMarked_append (first second : List (Char × Bool)) :
    crlfMarked (first ++ second) = crlfMarked first ++ crlfMarked second := List.flatMap_append

theorem plain_crlfMarked (marked : List (Char × Bool)) :
    plain (crlfMarked marked) = Text.crlf (plain marked) := by
  induction marked with
  | nil => rfl
  | cons item marked ih =>
      obtain ⟨c, quoted⟩ := item
      have hcons : ∀ c, plain ((c, quoted) :: marked) = c :: plain marked := fun _ => rfl
      by_cases hc : c = '\n'
      · rw [hc, crlfMarked_feed, hcons, Text.crlf_feed, ← ih]
        rfl
      · rw [crlfMarked_cons hc, hcons, Text.crlf_cons_of_ne hc, ← ih]
        rfl

theorem crlfMarked_tag (quoted : Bool) (text : Text) :
    crlfMarked (tag quoted text) = tag quoted (Text.crlf text) := by
  induction text with
  | nil => rfl
  | cons c text ih =>
      have hcons : ∀ c text, tag quoted (c :: text) = (c, quoted) :: tag quoted text := fun _ _ => rfl
      by_cases hc : c = '\n'
      · rw [hc, hcons, crlfMarked_feed, ih, Text.crlf_feed, hcons, hcons]
      · rw [hcons, crlfMarked_cons hc, ih, Text.crlf_cons_of_ne hc, hcons]

/-- A line ends in front of the carriage return where it ended in front of the line feed. -/
theorem trims_crlf (h : '\r' ∉ text) : trims (Text.crlf text) = trims text := by
  induction text with
  | nil => rfl
  | cons c text ih =>
      obtain ⟨hreturn, htext⟩ := List.ne_and_not_mem_of_not_mem_cons h
      by_cases hfeed : c = '\n'
      · rw [hfeed]
        rfl
      · rw [Text.crlf_cons_of_ne hfeed, trims_cons, trims_cons, ih htext,
          ends_of_ne hfeed hreturn.symm, ends_of_ne hfeed hreturn.symm]

theorem strip_crlfMarked (trim : Bool) (h : '\r' ∉ plain marked) :
    strip trim [] (crlfMarked marked) = crlfMarked (strip trim [] marked) := by
  induction marked with
  | nil => rfl
  | cons item marked ih =>
      obtain ⟨c, quoted⟩ := item
      have hmarked : '\r' ∉ plain marked := fun hmem => h (List.mem_cons_of_mem c hmem)
      have hrest := ih hmarked
      by_cases hc : c = '\n'
      · rw [hc, crlfMarked_feed, strip_cons_of_not_isBlank (by decide),
          strip_cons_of_not_isBlank (by decide), strip_cons_of_not_isBlank (by decide), hrest,
          crlfMarked_feed]
      · rw [crlfMarked_cons hc, strip, strip, List.append_nil, List.append_nil, plain_crlfMarked,
          trims_crlf hmarked, hrest]
        split
        · rfl
        · rw [crlfMarked_cons hc]

theorem tagged_crlf (pieces : List Piece) : tagged (Piece.crlf pieces) = crlfMarked (tagged pieces) := by
  induction pieces with
  | nil => rfl
  | cons piece pieces ih =>
      cases piece with
      | blank c =>
          by_cases hc : c = '\n'
          · rw [hc, Piece.crlf_feed, tagged, tagged, tagged, ih, crlfMarked_feed]
          · rw [Piece.crlf_blank hc, tagged, tagged, ih, crlfMarked_cons hc]
      | token kind lexeme =>
          rw [Piece.crlf_token, tagged, tagged, ih, crlfMarked_append, crlfMarked_tag]

/-! ## Gaps behind keywords -/

theorem all_isGap_crlf (hgap : gap.all Piece.isGap = true) : (Piece.crlf gap).all Piece.isGap = true := by
  induction gap with
  | nil => rfl
  | cons piece gap ih =>
      rw [List.all_cons, Bool.and_eq_true] at hgap
      cases piece with
      | blank c =>
          by_cases hc : c = '\n'
          · rw [hc, Piece.crlf_feed]
            exact ih hgap.2
          · rw [Piece.crlf_blank hc]
            exact ih hgap.2
      | token kind lexeme => cases hgap.1

theorem leads_crlf (hothers : Leads others) : Leads (Piece.crlf others) := by
  cases others with
  | nil => exact hothers
  | cons piece others =>
      cases piece with
      | blank c => cases hothers (.blank c) rfl
      | token kind lexeme =>
          rw [Piece.crlf_token]
          rintro piece hpiece
          cases hpiece
          rfl

theorem opensClause_crlf (hothers : Leads others) :
    opensClause (Piece.crlf others) = opensClause others := by
  cases others with
  | nil => rfl
  | cons piece others =>
      cases piece with
      | blank c => cases hothers (.blank c) rfl
      | token kind lexeme => rfl

theorem isEmpty_crlf (pieces : List Piece) : (Piece.crlf pieces).isEmpty = pieces.isEmpty := by
  cases pieces with
  | nil => rfl
  | cons piece pieces =>
      cases piece with
      | blank c =>
          by_cases hc : c = '\n'
          · rw [hc]
            rfl
          · rw [Piece.crlf_blank hc]
            rfl
      | token kind lexeme => rfl

theorem all_isBlank_crlf (text : Text) : (Text.crlf text).all isBlank = text.all isBlank := by
  induction text with
  | nil => rfl
  | cons c text ih =>
      by_cases hc : c = '\n'
      · rw [hc]
        rfl
      · rw [Text.crlf_cons_of_ne hc, List.all_cons, List.all_cons, ih]

theorem regap_crlf (want : Bool) (pieces : List Piece) :
    regap want (Piece.crlf pieces) = Piece.crlf (regap want pieces) := by
  obtain ⟨gap, others, rfl, hgap, hothers⟩ := exists_gap pieces
  have hspace : Piece.crlf (.blank ' ' :: (gap ++ others)) =
      .blank ' ' :: (Piece.crlf gap ++ Piece.crlf others) := by
    rw [Piece.crlf_blank (by decide), Piece.crlf_append]
  rw [Piece.crlf_append, regap_append (all_isGap_crlf hgap) (leads_crlf hothers),
    regap_append hgap hothers, opensClause_crlf hothers, isEmpty_crlf, Piece.spell_crlf, all_isBlank_crlf]
  split_ifs
  · exact hspace.symm
  · exact (Piece.crlf_append gap others).symm
  · rfl
  · exact (Piece.crlf_append gap others).symm
  · exact (Piece.crlf_append gap others).symm

theorem isSpaced_crlf (kind : TokenKind) (lexeme : Text) :
    isSpaced kind (Text.crlf lexeme) = isSpaced kind lexeme := by
  have hnone : ∀ lexeme : Text, '\n' ∈ lexeme → isSpaced kind lexeme = false := by
    intro lexeme hmem
    rw [Bool.eq_false_iff]
    intro hspaced
    obtain ⟨-, c, tail, rfl, hletter, -, hletters⟩ := exists_letters hspaced
    rcases List.mem_cons.mp hmem with rfl | hmem
    · exact absurd hletter (by decide)
    · exact absurd (List.all_eq_true.mp hletters _ hmem) (by decide)
  by_cases hline : '\n' ∈ lexeme
  · rw [hnone lexeme hline, hnone _ ((Text.mem_crlf_iff (by decide)).mpr hline)]
  · rw [Text.crlf_eq_self hline]

theorem respace_crlf (want : Bool) (pieces : List Piece) :
    respace want (Piece.crlf pieces) = Piece.crlf (respace want pieces) := by
  induction pieces with
  | nil => rfl
  | cons piece pieces ih =>
      cases piece with
      | blank c =>
          by_cases hc : c = '\n'
          · rw [hc, Piece.crlf_feed, respace, respace, respace, ih, Piece.crlf_feed]
          · rw [Piece.crlf_blank hc, respace, respace, ih, Piece.crlf_blank hc]
      | token kind lexeme =>
          rw [Piece.crlf_token, respace, respace, ih, regap_crlf, Piece.crlf_token, isSpaced_crlf]
          split <;> rfl

theorem mem_regap (h : c ∈ spell (regap want pieces)) : c = ' ' ∨ c ∈ spell pieces := by
  obtain hkept | ⟨-, hadded⟩ | ⟨gap, others, rfl, -, -, -, hremoved⟩ := regap_cases want pieces
  · rw [hkept] at h
    exact .inr h
  · rw [hadded] at h
    exact List.mem_cons.mp h
  · rw [hremoved] at h
    rw [Piece.spell_append]
    exact .inr (List.mem_append_right _ h)

theorem mem_respace (h : c ∈ spell (respace want pieces)) : c = ' ' ∨ c ∈ spell pieces := by
  induction pieces with
  | nil => exact .inr h
  | cons piece pieces ih =>
      have hrest : c ∈ spell (respace want pieces) → c = ' ' ∨ c ∈ spell (piece :: pieces) := fun hmem =>
        (ih hmem).imp_right fun hmem => List.mem_append_right _ hmem
      cases piece with
      | blank d =>
          rcases List.mem_append.mp h with hmem | hmem
          · exact .inr (List.mem_append_left _ hmem)
          · exact hrest hmem
      | token kind lexeme =>
          rcases List.mem_append.mp h with hmem | hmem
          · exact .inr (List.mem_append_left _ hmem)
          · split at hmem
            · exact (mem_regap hmem).elim .inl hrest
            · exact hrest hmem

/-! ## The end of the file -/

theorem hasCarriageReturns_of_not_mem (h : '\r' ∉ text) : hasCarriageReturns text = false := by
  fun_induction hasCarriageReturns text with
  | case1 => rfl
  | case2 => exact absurd List.mem_cons_self h
  | case3 c text _ ih => exact ih fun hmem => h (List.mem_cons_of_mem c hmem)

theorem hasCarriageReturns_crlf (h : '\n' ∈ text) : hasCarriageReturns (Text.crlf text) = true := by
  induction text with
  | nil => cases h
  | cons c text ih =>
      by_cases hc : c = '\n'
      · rw [hc]
        rfl
      · have hrest := (List.mem_cons.mp h).resolve_left (Ne.symm hc)
        rw [Text.crlf_cons_of_ne hc, hasCarriageReturns_cons, ih hrest, Bool.or_true]

theorem lineEnd_crlf (options : FormatSettings) (hfeed : '\n' ∈ text) (hreturn : '\r' ∉ text) :
    lineEnd options (Text.crlf text) = Text.crlf (lineEnd options text) := by
  have hempty : (Text.crlf text).isEmpty = text.isEmpty := by
    rw [Bool.eq_iff_iff, List.isEmpty_iff, List.isEmpty_iff, Text.crlf_eq_nil_iff]
  have hlast : ((Text.crlf text).getLast? == some '\n') = (text.getLast? == some '\n') := by
    rw [Bool.eq_iff_iff, beq_iff_eq, beq_iff_eq, Text.getLast?_crlf_iff]
  rw [lineEnd_eq, lineEnd_eq, hempty, hlast, hasCarriageReturns_crlf hfeed,
    hasCarriageReturns_of_not_mem hreturn, if_pos rfl, if_neg Bool.false_ne_true]
  split_ifs <;> rfl

/-- **Formatting keeps the line ends of a text.** A text with carriage returns in front of its line feeds
is formatted as the text without, with carriage returns in front of the line feeds. -/
theorem applyAll_edits_crlf {mark : Text} (hcut : Piece.Cut text mark pieces) (hfeed : '\n' ∈ text)
    (hreturn : '\r' ∉ text) (hkept : Piece.AllKept pieces) (options : FormatSettings) :
    ∃ formatted,
      Edit.applyAll text (edits text (Piece.locate mark.size pieces) options) = .ok formatted ∧
      Edit.applyAll (Text.crlf text)
        (edits (Text.crlf text) (Piece.locate mark.size (Piece.crlf pieces)) options) =
          .ok (Text.crlf formatted) := by
  have hspell := hcut.not_mem hreturn
  have hspaced : '\r' ∉ spell (respace options.spaceAfterControlKeyword pieces) := fun hmem =>
    (mem_respace hmem).elim (by decide) hspell
  refine ⟨_, applyAll_edits hcut options, ?_⟩
  rw [applyAll_edits (hcut.crlf hreturn hkept) options, lineEnd_crlf options hfeed hreturn, respace_crlf,
    tagged_crlf, strip_crlfMarked _ (by rwa [Piece.plain_tagged]), plain_crlfMarked, Text.crlf_append,
    Text.crlf_append, hcut.crlf_mark]

/-- A document and one with other line ends are both formatted, and come out as the same lines. -/
theorem exists_formatted_crlf {late : List Text} {tree : Tree}
    (hread : CSharp.read text = (late, .ok tree)) (hfeed : '\n' ∈ text) (hreturn : '\r' ∉ text)
    (hlines : text.KeepsLines) (id : DocumentId) (path : Path) (options : FormatSettings) :
    ∃ formats formatted formats',
      spacingFormatter (Document.parse CSharp.reader id path text).1 options = .ok formats ∧
      Edit.applyAll text formats = .ok formatted ∧
      spacingFormatter (Document.parse CSharp.reader id path (Text.crlf text)).1 options =
        .ok formats' ∧
      Edit.applyAll (Text.crlf text) formats' = .ok (Text.crlf formatted) := by
  obtain ⟨found, -, tree', hfound, -, -, hread', -⟩ := CSharp.exists_read_crlf hread hreturn hlines
  obtain ⟨mark, pieces, hcut, rfl⟩ := exists_cut_of_tokenize hfound
  have hkept := hcut.allKept hlines
  obtain ⟨formatted, hformatted, hformatted'⟩ := applyAll_edits_crlf hcut hfeed hreturn hkept options
  refine ⟨_, formatted, _, ?_, hformatted, ?_, hformatted'⟩
  · rw [Document.parse_eq hread]
    exact spacingFormatter_eq rfl hfound options
  · rw [Document.parse_eq hread']
    exact spacingFormatter_eq rfl (hcut.crlf hreturn hkept).tokenize_eq options

end Spacing

end CSharpTidy
