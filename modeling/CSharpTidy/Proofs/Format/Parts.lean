import CSharpTidy.Proofs.Format.Pass
import CSharpTidy.Proofs.Tree.Refill

/-!
# Formatting slot by slot

A directive begins with a word and ends with a semicolon. Neither the gap behind a keyword nor the
blanks at the end of a line reach across these. So a text in slots is formatted part by part: what
becomes of the body of a slot depends on the body alone, and what becomes of its gap on the gap.
-/

namespace CSharpTidy

open List (Forall₂)
open Piece (spell width Scanned)

/-- Pieces that begin with a word and end with a semicolon. -/
structure Piece.Enclosed (pieces : List Piece) : Prop where
  opens : ∃ c word after, pieces = .token .identifier (c :: word) :: after ∧ c.isAlphanum = true
  closes : ∃ before, pieces = before ++ [.token (.punctuation ';') [';']]

namespace Piece.Enclosed

variable {pieces : List Piece} {lineStart : Bool}

theorem exists_spell (h : Enclosed pieces) :
    ∃ c text, spell pieces = c :: text ∧ c.isAlphanum = true := by
  obtain ⟨c, word, after, rfl, hletter⟩ := h.opens
  exact ⟨c, word ++ spell after, rfl, hletter⟩

theorem getLast?_spell (h : Enclosed pieces) : (spell pieces).getLast? = some ';' := by
  obtain ⟨before, rfl⟩ := h.closes
  rw [Piece.spell_append]
  exact Scan.getLast?_append_of_eq rfl _

theorem scanned (h : Enclosed pieces) (hscanned : Scanned [] lineStart pieces) (rest : Text)
    (lineStart' : Bool) : Scanned rest lineStart' pieces := by
  have hclosed : Scanned rest lineStart pieces := by
    obtain ⟨before, rfl⟩ := h.closes
    exact hscanned.of_isClosed rfl rest
  obtain ⟨c, word, after, rfl, -⟩ := h.opens
  exact ⟨hclosed.1.at (fun hkind => by cases hkind) (fun hkind => by cases hkind), hclosed.2⟩

theorem lineStartAfter_eq (h : Enclosed pieces) (lineStart : Bool) :
    Piece.lineStartAfter lineStart pieces = false := by
  obtain ⟨before, rfl⟩ := h.closes
  exact Read.lineStartAfter_concat_token _ _ _ _

end Piece.Enclosed

theorem DirectiveSlot.Reads.enclosed {slot : DirectiveSlot} (h : slot.Reads) :
    Piece.Enclosed slot.body := by
  obtain ⟨found, hsegment, hspan, -⟩ := h.segment 0
  obtain ⟨first, hfirst, last, hlast, hword, hmark, hfound, -⟩ := (hsegment false []).of_directive
  have hne : Piece.code 0 slot.body ≠ [] := by
    intro hnone
    rw [hnone] at hfirst
    cases hfirst
  obtain ⟨lead, body, after, hbody, -, hframed, -⟩ :=
    Piece.exists_cut (List.append_nil (Piece.code 0 slot.body)).symm hne
  obtain ⟨hstart, behind, hbehind⟩ := hframed.first first hfirst
  obtain ⟨hstop, before, hbefore⟩ := hframed.last last hlast
  -- the segment takes up all of the body, and what is left around it is empty
  have hscanned := (h.scans [] true).1
  have hwidth : width slot.body = width lead + (width body + width after) := by
    rw [hbody, Piece.width_append, Piece.width_append]
  rw [hfound, Span.mk.injEq] at hspan
  have hlead : spell lead = [] := Text.size_eq_zero.mp (by
    change width lead = 0
    omega)
  have hafter : spell after = [] := Text.size_eq_zero.mp (by
    change width after = 0
    omega)
  rw [hbody] at hscanned
  obtain ⟨hscannedLead, hscannedRest⟩ := Piece.scanned_append.mp hscanned
  obtain rfl := Spacing.eq_nil_of_spell hscannedLead hlead
  obtain rfl := Spacing.eq_nil_of_spell (Piece.scanned_append.mp hscannedRest).2 hafter
  rw [List.nil_append, List.append_nil] at hbody
  constructor
  · rcases hword with hword | hword
    · obtain ⟨hkind, hlexeme⟩ := Token.isWord_iff.mp hword
      exact ⟨'g', "lobal".toList, behind, by rw [hbody, hbehind, hkind, hlexeme]; rfl, by decide⟩
    · obtain ⟨hkind, hlexeme⟩ := Token.isWord_iff.mp hword
      exact ⟨'u', "sing".toList, behind, by rw [hbody, hbehind, hkind, hlexeme]; rfl, by decide⟩
  · have hclosed := (h.scans [] true).1
    rw [hbody, hbefore] at hclosed
    obtain ⟨-, htakes⟩ := Piece.scanned_concat_token.mp hclosed
    rw [Token.isMark_iff.mp hmark] at htakes
    exact ⟨before, by rw [hbody, hbefore, Token.isMark_iff.mp hmark, htakes.lexeme_eq]⟩

namespace Spacing

open Piece (tagged tokens Enclosed)

variable {options : FormatSettings} {kind : TokenKind} {lexeme word text mark rest final : Text}
  {lineStart want trim quoted : Bool} {c d : Char} {marked : List (Char × Bool)}
  {front others gap body tail : List Piece} {slot slot' other other' : DirectiveSlot}
  {slots : List DirectiveSlot}

/-! ## Where parts meet -/

theorem regap_append_of_leads (hothers : Leads others) (hplain : opensClause others = false)
    (front : List Piece) : regap want (front ++ others) = regap want front ++ others := by
  obtain ⟨gap, rest, rfl, hgap, hrest⟩ := exists_gap front
  have hmore : Leads (rest ++ others) := by
    cases rest with
    | nil => exact hothers
    | cons piece rest => exact hrest
  have hopens : opensClause (rest ++ others) = opensClause rest := by
    cases rest with
    | nil => exact hplain
    | cons piece rest => cases piece <;> rfl
  rw [List.append_assoc, regap_append hgap hmore, regap_append hgap hrest, hopens]
  repeat' split
  all_goals simp only [List.append_assoc, List.cons_append]

/-- Gaps behind keywords do not reach across a token that opens no clause. -/
theorem respace_append_of_leads (hothers : Leads others) (hplain : opensClause others = false)
    (front : List Piece) :
    respace want (front ++ others) = respace want front ++ respace want others := by
  induction front with
  | nil => rfl
  | cons piece front ih =>
      cases piece with
      | blank c => rw [List.cons_append, respace, ih, respace, List.cons_append]
      | token kind lexeme =>
          rw [List.cons_append, respace, ih, respace, List.cons_append]
          split
          · rw [regap_append_of_leads (leads_respace hothers)
              ((opensClause_respace others).trans hplain)]
          · rfl

/-- Behind a character inside a line it does not matter what else comes. -/
theorem strip_concat (hblank : isBlank c = false) (hfeed : c ≠ '\n') (hreturn : c ≠ '\r')
    (after after' : Text) :
    strip trim after (marked ++ [(c, quoted)]) = strip trim after' (marked ++ [(c, quoted)]) := by
  have hedge : SameEdge (plain [(c, quoted)] ++ after) (plain [(c, quoted)] ++ after') :=
    sameEdge_of_ne hblank hfeed hreturn after after'
  rw [strip_append, strip_append, strip_congr hedge, strip_cons_of_not_isBlank hblank,
    strip_cons_of_not_isBlank hblank]
  rfl

theorem sameEdge_of_isAlphanum (hc : c.isAlphanum = true) (hd : d.isAlphanum = true)
    (rest rest' : Text) : SameEdge (c :: rest) (d :: rest') := by
  have hne : ∀ {c : Char}, c.isAlphanum = true → ∀ mark : Char, mark.isAlphanum = false →
      (c == mark) = false := by
    intro c hc mark hmark
    rw [beq_eq_false_iff_ne]
    rintro rfl
    rw [hc] at hmark
    cases hmark
  have hbreaks : ∀ {c : Char}, c.isAlphanum = true → ∀ rest, Scan.breaks (c :: rest) = false :=
    fun hc _ => hne hc '\n' (by decide)
  have hcarriage : ∀ {c : Char}, c.isAlphanum = true → ∀ rest,
      Scan.carriage (c :: rest) = false := by
    intro c hc rest
    rw [Scan.carriage, hne hc '\r' (by decide), Bool.false_and]
  have htrims : ∀ {c : Char}, c.isAlphanum = true → ∀ rest, trims (c :: rest) = false := by
    intro c hc rest
    have hblank : isBlank c = false := by
      rw [isBlank, hne hc ' ' (by decide), hne hc '\t' (by decide), Bool.or_false]
    rw [trims_cons, hblank, if_neg Bool.false_ne_true, ends, hbreaks hc, hcarriage hc, Bool.or_false]
  exact ⟨by rw [hbreaks hc, hbreaks hd], by rw [hcarriage hc, hcarriage hd],
    by rw [htrims hc, htrims hd]⟩

/-- What formatting makes of the characters of pieces that stand in front of a text. -/
def reshape (options : FormatSettings) (after : Text) (pieces : List Piece) : List (Char × Bool) :=
  strip options.trimTrailingWhitespace after
    (tagged (respace options.spaceAfterControlKeyword pieces))

/-- The pieces in front of a word and those from it on are formatted apart. -/
theorem reshape_append_word (hletter : c.isAlphanum = true) (hd : d.isAlphanum = true)
    (front others : List Piece) (rest : Text) :
    reshape options [] (front ++ .token .identifier (c :: word) :: others) =
      reshape options (d :: rest) front ++
        reshape options [] (.token .identifier (c :: word) :: others) := by
  have hleads : Leads (.token .identifier (c :: word) :: others) := by
    rintro piece ⟨⟩
    rfl
  have hbehind : ∃ text, plain (tagged (respace options.spaceAfterControlKeyword
      (.token .identifier (c :: word) :: others))) ++ [] = c :: text := by
    rw [Piece.plain_tagged, List.append_nil, respace, Piece.spell_cons]
    exact ⟨_, rfl⟩
  obtain ⟨text, hbehind⟩ := hbehind
  rw [reshape, respace_append_of_leads hleads rfl, Piece.tagged_append, strip_append, hbehind,
    strip_congr (sameEdge_of_isAlphanum hletter hd text rest)]
  rfl

theorem reshape_append_semicolon (front others : List Piece) :
    reshape options [] (front ++ [.token (.punctuation ';') [';']] ++ others) =
      reshape options [] (front ++ [.token (.punctuation ';') [';']]) ++
        reshape options [] others := by
  have hrespace : ∀ others : List Piece, respace options.spaceAfterControlKeyword
      (front ++ .token (.punctuation ';') [';'] :: others) =
        respace options.spaceAfterControlKeyword front ++
          .token (.punctuation ';') [';'] :: respace options.spaceAfterControlKeyword others := by
    intro others
    rw [respace_append_of_leads (by rintro piece ⟨⟩; rfl) rfl]
    rfl
  have htagged : ∀ others : List Piece, tagged (respace options.spaceAfterControlKeyword front ++
      .token (.punctuation ';') [';'] :: others) =
        tagged (respace options.spaceAfterControlKeyword front) ++ [(';', false)] ++
          tagged others := by
    intro others
    rw [Piece.tagged_append, tagged, List.append_assoc]
    rfl
  rw [List.append_assoc, List.singleton_append, reshape, reshape, reshape, hrespace, hrespace,
    htagged, htagged, strip_append, respace, tagged, List.append_nil, List.append_nil,
    strip_concat (by decide) (by decide) (by decide) _ []]

/-! ## The pieces of formatted parts -/

/-- What ends with code still does when it is tidied. -/
theorem exists_tidied_concat (options : FormatSettings) (hkind : kind.isTrivia = false)
    (hlast : lexeme.getLast? = some c) (hblank : Scan.isBlank c = false)
    (hscanned : Scanned [] lineStart (front ++ [.token kind lexeme])) :
    ∃ front', tagged (front' ++ [.token kind lexeme]) =
        reshape options [] (front ++ [.token kind lexeme]) ∧
      Scanned [] lineStart (front' ++ [.token kind lexeme]) ∧
        Forall₂ Tidies (tokens front) (tokens front') := by
  obtain ⟨hrespaced, -⟩ := scanned_respace hscanned options.spaceAfterControlKeyword
  obtain ⟨found, htagged, hfound, htidies, -⟩ :=
    exists_tidied (.inl rfl) options.trimTrailingWhitespace hrespaced
  change tagged found = _ ++ [] at htagged
  rw [List.append_nil] at htagged
  rw [tokens_respace, Piece.tokens_append] at htidies
  -- the last character stays, so that the last piece is a token
  have hend : (spell found).getLast? = some c := by
    rw [← Piece.plain_tagged, htagged]
    refine getLast?_strip ?_ (not_isBlank_of_scan hblank) _
    rw [Piece.plain_tagged, getLast?_respace hscanned, Piece.spell_append]
    exact Scan.getLast?_append_of_eq (by simpa [Piece.text] using hlast) _
  rcases List.eq_nil_or_concat found with rfl | ⟨front', piece, rfl⟩
  · cases hend
  · rw [List.concat_eq_append] at htagged hfound htidies hend
    rw [Piece.spell_append] at hend
    cases piece with
    | blank d =>
        obtain rfl : d = c := by simpa [Piece.text] using hend
        have hscan := (Piece.scanned_append.mp hfound).2.1
        rw [hscan] at hblank
        cases hblank
    | token kind' lexeme' =>
        rw [Piece.tokens_append] at htidies
        obtain ⟨hfront, hkinds, htidied⟩ := Read.forall₂_concat htidies
        rw [Tidied, hkind] at htidied
        obtain rfl : kind' = kind := hkinds
        obtain rfl : lexeme' = lexeme := htidied
        exact ⟨front', htagged, hfound, hfront⟩

/-- A gap in front of a word, formatted. It is the same whatever the word is. -/
theorem exists_formatted_gap (options : FormatSettings) (hletter : c.isAlphanum = true)
    (hscanned : Scanned (c :: rest) lineStart gap) :
    ∃ gap', (tokens gap').length = (tokens gap).length ∧
      ∀ {d : Char}, d.isAlphanum = true → ∀ text,
        tagged gap' = reshape options (d :: text) gap ∧ Scanned (d :: text) lineStart gap' := by
  -- a word of one letter stands in for what follows
  have hscanned' : Scanned [] lineStart (gap ++ [.token .identifier ['a']]) := by
    refine Piece.scanned_concat_token.mpr
      ⟨hscanned.congr (Scan.alike_of_isAlphanum hletter (by decide) _ _), 'a', [], rfl, by decide, ?_⟩
    rw [Scan.head_of_word (by decide), if_neg (by decide)]
    rfl
  obtain ⟨gap', htagged, hformatted, htidies⟩ :=
    exists_tidied_concat options rfl rfl (by decide) hscanned'
  refine ⟨gap', htidies.length_eq.symm, fun hd text => ⟨?_, ?_⟩⟩
  · rw [reshape_append_word (by decide) hd gap [] text, Piece.tagged_append] at htagged
    refine List.append_cancel_right (htagged.trans (congrArg _ ?_))
    exact strip_cons_of_not_isBlank (by decide) _ _ _ []
  · exact (Piece.scanned_concat_token.mp hformatted).1.congr
      (Scan.alike_of_isAlphanum (by decide) hd _ _)

theorem exists_formatted_body (options : FormatSettings) (h : Enclosed body)
    (hscanned : Scanned [] lineStart body) :
    ∃ body', tagged body' = reshape options [] body ∧
      (tokens body').length = (tokens body).length ∧ Enclosed body' ∧
        Scanned [] lineStart body' := by
  obtain ⟨before, rfl⟩ := h.closes
  obtain ⟨before', htagged, hscanned', htidies⟩ :=
    exists_tidied_concat options rfl rfl (by decide) hscanned
  refine ⟨_, htagged, ?_, ⟨?_, before', rfl⟩, hscanned'⟩
  · rw [Piece.length_tokens_append, Piece.length_tokens_append, htidies.length_eq]
  · -- the first character stays, so that the first piece is the token it was
    have htokens : Forall₂ Tidies (tokens (before ++ [.token (.punctuation ';') [';']]))
        (tokens (before' ++ [.token (.punctuation ';') [';']])) := by
      rw [Piece.tokens_append, Piece.tokens_append]
      exact List.rel_append htidies (.cons ⟨rfl, rfl⟩ .nil)
    obtain ⟨c, word, after, hopens, hletter⟩ := h.opens
    rw [hopens] at htagged htokens
    have hblank := Scan.isBlank_of_isIdentifierChar (Scan.isIdentifierChar_of_isAlphanum hletter)
    have hhead : (tagged (before' ++ [.token (.punctuation ';') [';']])).head? = some (c, false) := by
      rw [htagged, reshape, respace, tagged]
      exact congrArg List.head? (strip_cons_of_not_isBlank (not_isBlank_of_scan hblank) _ _ _ _)
    generalize before' ++ [.token (.punctuation ';') [';']] = body' at hhead htokens hscanned' ⊢
    cases body' with
    | nil => cases hhead
    | cons piece after' =>
        cases piece with
        | blank d =>
            obtain ⟨rfl, -⟩ := Prod.mk.inj (Option.some.inj hhead)
            rw [hscanned'.1] at hblank
            cases hblank
        | token kind lexeme =>
            cases htokens with
            | cons hfirst =>
                obtain ⟨hkind, hlexeme⟩ := hfirst
                obtain rfl : kind = .identifier := hkind
                obtain rfl : lexeme = c :: word := hlexeme
                exact ⟨c, word, after', rfl, hletter⟩

/-! ## Slots -/

structure FormattedSlot (options : FormatSettings) (slot slot' : DirectiveSlot) : Prop where
  gap : tagged slot'.gap = reshape options (spell slot.body) slot.gap
  body : tagged slot'.body = reshape options [] slot.body
  content : slot'.content = slot.content
  gapTokens : (tokens slot'.gap).length = (tokens slot.gap).length
  bodyTokens : (tokens slot'.body).length = (tokens slot.body).length
  scanned : Scanned [] true slot.body
  enclosed : Enclosed slot.body
  enclosed' : Enclosed slot'.body

theorem reshape_slot_append {slot : DirectiveSlot} (h : Enclosed slot.body) (others : List Piece) :
    reshape options [] (slot.gap ++ (slot.body ++ others)) =
      reshape options (spell slot.body) slot.gap ++
        (reshape options [] slot.body ++ reshape options [] others) := by
  obtain ⟨c, word, after, hopens, hletter⟩ := h.opens
  obtain ⟨before, hcloses⟩ := h.closes
  have hspell : spell slot.body = c :: (word ++ spell after) := by
    rw [hopens]
    rfl
  calc reshape options [] (slot.gap ++ (slot.body ++ others))
      = reshape options (spell slot.body) slot.gap ++ reshape options [] (slot.body ++ others) := by
        rw [hspell, hopens, List.cons_append, reshape_append_word hletter hletter]
    _ = reshape options (spell slot.body) slot.gap ++
          (reshape options [] slot.body ++ reshape options [] others) := by
        rw [hcloses, reshape_append_semicolon]

/-- What becomes of the body of a slot depends on the body alone. -/
theorem FormattedSlot.spell_body_congr (h : FormattedSlot options slot slot')
    (hother : FormattedSlot options other other') (hbody : spell slot.body = spell other.body) :
    spell slot'.body = spell other'.body := by
  rw [← Piece.plain_tagged, h.body, eq_of_spell h.scanned hother.scanned hbody, ← hother.body,
    Piece.plain_tagged]

theorem FormattedSlot.spell_gap_congr (h : FormattedSlot options slot slot')
    (hother : FormattedSlot options other other') (hgap : slot.gap = other.gap) :
    spell slot'.gap = spell other'.gap := by
  obtain ⟨c, text, hspell, hletter⟩ := h.enclosed.exists_spell
  obtain ⟨d, text', hspell', hletter'⟩ := hother.enclosed.exists_spell
  rw [← Piece.plain_tagged, h.gap, hgap, hspell, reshape,
    strip_congr (sameEdge_of_isAlphanum hletter hletter' text text'), ← hspell', ← reshape,
    ← hother.gap, Piece.plain_tagged]

/-- **Slots are formatted one by one.** -/
theorem exists_formatted_slots (options : FormatSettings) (hfinal : IsFinal final)
    (hreads : ∀ slot ∈ slots, slot.Reads)
    (hscanned : Scanned [] lineStart (DirectiveSlot.all slots ++ tail)) :
    ∃ slots' tail', Forall₂ (FormattedSlot options) slots slots' ∧
      tagged tail' = reshape options [] tail ++ tag false final ∧
        Scanned [] lineStart (DirectiveSlot.all slots' ++ tail') ∧
          tagged (DirectiveSlot.all slots' ++ tail') =
            reshape options [] (DirectiveSlot.all slots ++ tail) ++ tag false final := by
  induction slots generalizing lineStart with
  | nil =>
      obtain ⟨hrespaced, -⟩ := scanned_respace hscanned options.spaceAfterControlKeyword
      obtain ⟨tail', htagged, hscanned', -, -⟩ :=
        exists_tidied hfinal options.trimTrailingWhitespace hrespaced
      exact ⟨[], tail', .nil, htagged, hscanned', htagged⟩
  | cons slot slots ih =>
      have hslot := hreads slot List.mem_cons_self
      rw [DirectiveSlot.all_cons_append] at hscanned
      obtain ⟨hgap, hrest⟩ := Piece.scanned_append.mp hscanned
      obtain ⟨hbody, hothers⟩ := Piece.scanned_append.mp hrest
      obtain ⟨c, text, hspell, hletter⟩ := hslot.enclosed.exists_spell
      rw [Piece.spell_append, hspell, List.append_nil, List.cons_append] at hgap
      rw [hslot.enclosed.lineStartAfter_eq] at hothers
      obtain ⟨gap', hgapTokens, hgap'⟩ := exists_formatted_gap options hletter hgap
      obtain ⟨body', hbodyTagged, hbodyTokens, henclosed, hbody'⟩ :=
        exists_formatted_body options hslot.enclosed (hslot.scans [] true).1
      obtain ⟨slots', tail', hslots, htail, hothers', htagged⟩ :=
        ih (fun later hmem => hreads later (List.mem_cons_of_mem _ hmem)) hothers
      -- the formatted gap scans in front of the formatted body, which begins with a word as well
      obtain ⟨d, text', hspell', hletter'⟩ := henclosed.exists_spell
      refine ⟨⟨gap', body', slot.content⟩ :: slots', tail',
        .cons ⟨hspell ▸ (hgap' hletter text).1, hbodyTagged, rfl, hgapTokens, hbodyTokens,
          (hslot.scans [] true).1, hslot.enclosed, henclosed⟩ hslots, htail, ?_, ?_⟩
      · rw [DirectiveSlot.all_cons_append, Piece.scanned_append, Piece.scanned_append]
        refine ⟨?_, henclosed.scanned hbody' _ _, ?_⟩
        · rw [Piece.spell_append, hspell', List.append_nil, List.cons_append]
          exact (hgap' hletter' _).2
        · rw [henclosed.lineStartAfter_eq]
          exact hothers'
      · rw [DirectiveSlot.all_cons_append, DirectiveSlot.all_cons_append, Piece.tagged_append,
          Piece.tagged_append, htagged, hbodyTagged, (hgap' hletter text).1,
          reshape_slot_append hslot.enclosed, hspell, List.append_assoc, List.append_assoc]

theorem exists_reshaped_slots (hcut : Piece.Cut text mark (DirectiveSlot.all slots ++ tail))
    (hreads : ∀ slot ∈ slots, slot.Reads) (options : FormatSettings) :
    ∃ text' slots' tail', Reshaped options text mark (DirectiveSlot.all slots ++ tail) text'
        (DirectiveSlot.all slots' ++ tail') ∧
      Forall₂ (FormattedSlot options) slots slots' ∧
        tagged tail' = reshape options [] tail ++ tag false (lineEnd options text) := by
  obtain ⟨text', pieces', hreshaped⟩ := exists_reshaped hcut options
  obtain ⟨slots', tail', hslots, htail, hscanned', htagged⟩ :=
    exists_formatted_slots options (isFinal_lineEnd options text) hreads hcut.scanned
  have hspell : spell pieces' = spell (DirectiveSlot.all slots' ++ tail') := by
    rw [← Piece.plain_tagged, hreshaped.tagged_eq, ← Piece.plain_tagged, htagged, reshape]
  obtain rfl := eq_of_spell hreshaped.cut.scanned hscanned' hspell
  exact ⟨text', slots', tail', hreshaped, hslots, htail⟩

/-! ## The line end of a file -/

variable {text' first second : Text} {slots' : List DirectiveSlot}

theorem hasCarriageReturns_cons (c : Char) (text : Text) :
    hasCarriageReturns (c :: text) =
      (c == '\r' && text.head? == some '\n' || hasCarriageReturns text) := by
  cases text with
  | nil => simp [hasCarriageReturns]
  | cons d text =>
      by_cases hreturn : c = '\r' ∧ d = '\n'
      · obtain ⟨rfl, rfl⟩ := hreturn
        rfl
      · have hnot : (c == '\r' && (d :: text).head? == some '\n') = false := by
          rw [Bool.eq_false_iff]
          simpa using hreturn
        rw [hnot, Bool.false_or, hasCarriageReturns]
        rintro rest rfl htext
        obtain ⟨rfl, -⟩ := List.cons.inj htext
        exact hreturn ⟨rfl, rfl⟩

/-- No line end reaches into a text that does not begin with a line feed. -/
theorem hasCarriageReturns_append (h : second.head? ≠ some '\n') :
    hasCarriageReturns (first ++ second) =
      (hasCarriageReturns first || hasCarriageReturns second) := by
  induction first with
  | nil => rfl
  | cons c first ih =>
      rw [List.cons_append, hasCarriageReturns_cons, hasCarriageReturns_cons, ih, Bool.or_assoc]
      cases first with
      | nil =>
          have hhead : (second.head? == some '\n') = false := beq_eq_false_iff_ne.mpr h
          rw [List.nil_append, hhead]
          rfl
      | cons d first => rfl

theorem hasCarriageReturns_append_of_semicolon (h : first.getLast? = some ';') (second : Text) :
    hasCarriageReturns (first ++ second) =
      (hasCarriageReturns first || hasCarriageReturns second) := by
  obtain ⟨before, rfl⟩ := List.getLast?_eq_some_iff.mp h
  have hnext : ∀ text, hasCarriageReturns (';' :: text) = hasCarriageReturns text :=
    hasCarriageReturns_cons ';'
  rw [List.append_assoc, List.singleton_append, hasCarriageReturns_append (by simp),
    hasCarriageReturns_append (by simp), hnext, hnext, Bool.or_assoc]
  rfl

/-- The gaps and the bodies of slots hold the line ends that the slots hold. -/
theorem hasCarriageReturns_slots (h : ∀ slot ∈ slots, Enclosed slot.body) (tail : Text) :
    hasCarriageReturns (spell (DirectiveSlot.all slots) ++ tail) =
      ((slots.map fun slot => spell slot.gap).any hasCarriageReturns ||
        (slots.map fun slot => spell slot.body).any hasCarriageReturns ||
          hasCarriageReturns tail) := by
  induction slots with
  | nil => rfl
  | cons slot slots ih =>
      have hbody := h slot List.mem_cons_self
      obtain ⟨c, text, hspell, hletter⟩ := hbody.exists_spell
      have hfeed : (spell slot.body ++ (spell (DirectiveSlot.all slots) ++ tail)).head? ≠ some '\n' := by
        rw [hspell]
        rintro ⟨⟩
        cases hletter
      rw [DirectiveSlot.spell_all_cons, hasCarriageReturns_append hfeed,
        hasCarriageReturns_append_of_semicolon hbody.getLast?_spell,
        ih fun later hmem => h later (List.mem_cons_of_mem _ hmem), List.map_cons, List.map_cons,
        List.any_cons, List.any_cons]
      ac_rfl

theorem getLast?_slots (h : ∀ slot ∈ slots, Enclosed slot.body) (hne : slots ≠ []) :
    (spell (DirectiveSlot.all slots)).getLast? = some ';' := by
  rcases List.eq_nil_or_concat slots with rfl | ⟨others, slot, rfl⟩
  · exact absurd rfl hne
  · rw [List.concat_eq_append] at h ⊢
    have hlast := (h slot (List.mem_append_right _ List.mem_cons_self)).getLast?_spell
    rw [DirectiveSlot.all_append, Piece.spell_append]
    refine Scan.getLast?_append_of_eq ?_ _
    have hsingle := DirectiveSlot.spell_all_cons slot [] []
    rw [List.append_nil] at hsingle
    rw [hsingle]
    exact Scan.getLast?_append_of_eq (by simpa [DirectiveSlot.all] using hlast) _

theorem lineEnd_congr (hlast : text.getLast? = text'.getLast?)
    (hreturns : hasCarriageReturns text = hasCarriageReturns text') :
    lineEnd options text = lineEnd options text' := by
  have hempty : text.isEmpty = text'.isEmpty := by
    rw [Bool.eq_iff_iff, List.isEmpty_iff, List.isEmpty_iff, ← List.getLast?_eq_none_iff, hlast,
      List.getLast?_eq_none_iff]
  rw [lineEnd_eq, lineEnd_eq, hempty, hlast, hreturns]

/-- **The line end that is added stays.** It is the same whatever order the bodies of the slots have. -/
theorem lineEnd_refilled (hmark : mark = [] ∨ mark = [byteOrderMark])
    (henclosed : ∀ slot ∈ slots, Enclosed slot.body)
    (henclosed' : ∀ slot ∈ slots', Enclosed slot.body)
    (hgaps : (slots'.map fun slot => spell slot.gap) = slots.map fun slot => spell slot.gap)
    (hbodies : (slots'.map fun slot => spell slot.body).Perm (slots.map fun slot => spell slot.body))
    (options : FormatSettings) (tail : Text) :
    lineEnd options (mark ++ (spell (DirectiveSlot.all slots') ++ tail)) =
      lineEnd options (mark ++ (spell (DirectiveSlot.all slots) ++ tail)) := by
  have hlength : slots'.length = slots.length := by
    simpa using congrArg List.length hgaps
  refine lineEnd_congr ?_ ?_
  · by_cases hne : slots = []
    · subst hne
      obtain rfl := List.eq_nil_of_length_eq_zero hlength
      rfl
    · have hne' : slots' ≠ [] := by
        rintro rfl
        exact hne (List.eq_nil_of_length_eq_zero hlength.symm)
      simp only [List.getLast?_append, getLast?_slots henclosed hne, getLast?_slots henclosed' hne']
  · have hbehind : ∀ text, hasCarriageReturns (mark ++ text) = hasCarriageReturns text := by
      intro text
      rcases hmark with rfl | rfl
      · rfl
      · exact hasCarriageReturns_cons byteOrderMark text
    rw [hbehind, hbehind, hasCarriageReturns_slots henclosed, hasCarriageReturns_slots henclosed',
      hgaps, hbodies.any_eq]

end Spacing

end CSharpTidy
