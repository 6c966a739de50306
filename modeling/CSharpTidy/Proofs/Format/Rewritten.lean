import CSharpTidy.Proofs.Format.Keyword

/-!
# What the formatter makes of a text

Three lists of edits come together in one rewriting: those after keywords, those at the ends of lines
and the one at the end of the file. The last two guide the rewriting by what they do at every character,
and the pieces lead it through the first. The outcome is what the pieces spell with their gaps set
right and trimmed, and the new line end.
-/

namespace CSharpTidy

namespace Edit

variable {edit : Edit} {edits : List Edit} {offset : Nat} {text : Text}

theorem rewrite_insert (hspan : edit.span = ⟨offset, offset⟩) (hnone : inserted edits offset = []) :
    rewrite (edit :: edits) offset text = edit.replacement ++ rewrite edits offset text := by
  have hinserted : inserted (edit :: edits) offset = edit.replacement := by
    have hcons := inserted_append [edit] edits offset
    rw [List.singleton_append, hnone, List.append_nil] at hcons
    rw [hcons]
    simp [inserted, hspan]
  cases text with
  | nil => rw [rewrite, rewrite, hinserted, hnone, List.append_nil]
  | cons c text =>
      have hpos := c.utf8Size_pos
      have hcovers : covers (edit :: edits) offset = covers edits offset := by
        simp [covers, Span.contains, hspan]
      rw [rewrite, rewrite, hinserted, hnone, hcovers,
        rewrite_cons_of_behind (by rw [hspan]; simp only; omega) (by rw [hspan]; simp only; omega),
        List.nil_append, List.append_assoc]

theorem rewrite_cons_of_deleted (hreplacement : edit.replacement = []) (hstop : edit.span.stop ≤ offset) :
    rewrite (edit :: edits) offset text = rewrite edits offset text := by
  have hinserted : ∀ offset, inserted (edit :: edits) offset = inserted edits offset := by
    intro offset
    rw [inserted, inserted, List.filter_cons]
    split
    · rw [List.flatMap_cons, hreplacement, List.nil_append]
    · rfl
  induction text generalizing offset with
  | nil => exact hinserted offset
  | cons c text ih =>
      have hcovers : covers (edit :: edits) offset = covers edits offset := by
        simp [covers, Span.contains, Nat.not_lt_of_le hstop]
      rw [rewrite, rewrite, hinserted, hcovers, ih (by omega)]

end Edit

namespace Spacing

open Piece (spell tagged locate Scanned width)
open Edit (rewrite inserted covers)

variable {kind : TokenKind} {lexeme text before final : Text} {lineStart want trim : Bool} {c : Char}
  {pieces gap others : List Piece} {offset : Nat} {marked first second : List (Char × Bool)}
  {guide edits : List Edit} {edit : Edit}

/-! ## Edits behind keywords -/

/-- The edit in the gap in front of a clause, if one is needed. -/
def gapEdit? (want : Bool) (offset : Nat) (gap : Text) : Option Edit :=
  if want then if gap.isEmpty then some (.insert offset [' ']) else none
  else if !gap.isEmpty && gap.all isBlank then some (.delete ⟨offset, offset + gap.size⟩)
  else none

theorem span_of_gapEdit? {gap : Text} (h : gapEdit? want offset gap = some edit) :
    edit.span = ⟨offset, offset + gap.size⟩ ∧ gap.all isBlank = true := by
  unfold gapEdit? at h
  split at h
  · split at h
    · next hempty =>
        cases h
        obtain rfl : gap = [] := by simpa using hempty
        exact ⟨rfl, rfl⟩
    · cases h
  · split at h
    · next hblank =>
        cases h
        exact ⟨rfl, (Bool.and_eq_true_iff.mp hblank).2⟩
    · cases h

theorem keywordEdits_cons (text : Text) (want : Bool) (token : Token) (tokens : List Token) :
    keywordEdits text want (token :: tokens) =
      (tokens.head?.bind (keywordEdit? text want token)).toList ++
        keywordEdits text want tokens := by
  cases tokens <;> rfl

theorem head?_locate (hgap : gap.all Piece.isGap = true) (hothers : Leads others)
    (htext : text = before ++ (lexeme ++ (spell gap ++ spell others))) :
    (locate (before.size + lexeme.size) (gap ++ others)).head?.bind
        (keywordEdit? text want ⟨kind, lexeme, before.size⟩) =
      if isSpaced kind lexeme && opensClause others then
        gapEdit? want (before.size + lexeme.size) (spell gap)
      else none := by
  rw [locate_gap hgap]
  cases others with
  | nil => simp [locate, opensClause]
  | cons piece others =>
      cases piece with
      | blank c => cases hothers (.blank c) rfl
      | token kind' lexeme' =>
          have hslice : text.slice (before.size + lexeme.size)
              (before.size + lexeme.size + width gap) = spell gap := by
            rw [htext, ← List.append_assoc, ← Text.size_append]
            exact Text.slice_append (before ++ lexeme) (spell gap) _
          change keywordEdit? text want ⟨kind, lexeme, before.size⟩
            ⟨kind', lexeme', before.size + lexeme.size + width gap⟩ = _
          unfold keywordEdit? gapEdit?
          simp only [Token.stop, hslice]
          rfl

theorem keywordEdits_token (hgap : gap.all Piece.isGap = true) (hothers : Leads others)
    (htext : text = before ++ (lexeme ++ (spell gap ++ spell others))) :
    keywordEdits text want (locate before.size (.token kind lexeme :: (gap ++ others))) =
      (if isSpaced kind lexeme && opensClause others then
        gapEdit? want (before.size + lexeme.size) (spell gap)
      else none).toList ++
        keywordEdits text want (locate (before.size + lexeme.size) (gap ++ others)) := by
  rw [Piece.locate, keywordEdits_cons, head?_locate hgap hothers htext]

theorem le_start_of_mem_locate : ∀ token ∈ locate offset pieces, offset ≤ token.start := by
  induction pieces generalizing offset with
  | nil => exact fun _ hmem => by cases hmem
  | cons piece pieces ih =>
      intro token hmem
      cases piece with
      | blank c =>
          have := ih token hmem
          omega
      | token kind lexeme =>
          rcases List.mem_cons.mp hmem with rfl | hmem
          · exact Nat.le_refl _
          · have := ih token hmem
            omega

theorem exists_keyword_of_mem {tokens : List Token}
    (h : edit ∈ keywordEdits text want tokens) :
    ∃ token ∈ tokens, isSpaced token.kind token.lexeme = true ∧ edit.span.start = token.stop := by
  induction tokens with
  | nil => cases h
  | cons token tokens ih =>
      rw [keywordEdits_cons] at h
      rcases List.mem_append.mp h with h | h
      · obtain ⟨next, -, hedit⟩ := Option.bind_eq_some_iff.mp (Option.mem_toList.mp h)
        unfold keywordEdit? at hedit
        split at hedit
        · next hkeyword =>
            refine ⟨token, List.mem_cons_self, (Bool.and_eq_true_iff.mp hkeyword).1, ?_⟩
            simp only at hedit
            repeat' split at hedit
            all_goals first | cases hedit; rfl | cases hedit
        · cases hedit
      · obtain ⟨keyword, hmem, hspaced, hstart⟩ := ih h
        exact ⟨keyword, List.mem_cons_of_mem _ hmem, hspaced, hstart⟩

theorem lt_start_of_mem_keywordEdits :
    ∀ edit ∈ keywordEdits text want (locate offset pieces), offset < edit.span.start := by
  intro edit hedit
  obtain ⟨token, hmem, hspaced, hstart⟩ := exists_keyword_of_mem hedit
  obtain ⟨-, c, tail, hlexeme, -⟩ := exists_letters hspaced
  have hle := le_start_of_mem_locate token hmem
  have hpos := c.utf8Size_pos
  rw [hstart, Token.stop, hlexeme, Text.size_cons]
  omega

/-! ## The other edits, character by character -/

/-- What edits do at each of some characters: they insert nothing but at the end, and cover what is
trimmed. -/
def Guides (trim : Bool) (final : Text) (guide : List Edit) : Nat → List (Char × Bool) → Prop
  | offset, [] => inserted guide offset = final
  | offset, (c, quoted) :: rest =>
      inserted guide offset = [] ∧
        covers guide offset = (trim && isBlank c && !quoted && trims (plain rest)) ∧
          Guides trim final guide (offset + c.utf8Size) rest

theorem Guides.inserted_eq_nil (h : Guides trim final guide offset marked) (hne : marked ≠ []) :
    inserted guide offset = [] := by
  cases marked with
  | nil => exact absurd rfl hne
  | cons item marked => exact h.1

theorem Guides.append (h : Guides trim final guide offset (first ++ second)) :
    Guides trim final guide (offset + Text.size (plain first)) second := by
  induction first generalizing offset with
  | nil => exact h
  | cons item first ih =>
      have hrest := ih h.2.2
      rwa [Nat.add_assoc] at hrest

/-- Where all else comes later the guide alone decides. -/
theorem Guides.rewrite_append (h : Guides trim final guide offset (first ++ second))
    (hlater : ∀ edit ∈ edits, offset + Text.size (plain first) ≤ edit.span.start) (rest : Text) :
    rewrite (edits ++ guide) offset (plain first ++ rest) =
      plain (strip trim (plain second) first) ++
        rewrite (edits ++ guide) (offset + Text.size (plain first)) rest := by
  induction first generalizing offset with
  | nil => rfl
  | cons item first ih =>
      obtain ⟨c, quoted⟩ := item
      rw [List.cons_append] at h
      obtain ⟨hinserted, hcovers, hrest⟩ := h
      have hpos := c.utf8Size_pos
      have hsize : Text.size (plain ((c, quoted) :: first)) = c.utf8Size + Text.size (plain first) :=
        rfl
      rw [hsize] at hlater ⊢
      have hnone : inserted edits offset = [] := Edit.inserted_eq_nil fun edit hmem => by
        have := hlater edit hmem
        omega
      have hbare : covers edits offset = false := Edit.covers_eq_false fun edit hmem => by
        have := hlater edit hmem
        omega
      have hnext := ih hrest fun edit hmem => by
        have := hlater edit hmem
        omega
      change rewrite (edits ++ guide) offset (c :: (plain first ++ rest)) = _
      rw [rewrite, Edit.inserted_append, Edit.covers_append, hnone, hbare, hinserted, hcovers, hnext,
        strip, plain_append, Nat.add_assoc]
      cases trim && isBlank c && !quoted && trims (plain first ++ plain second) <;> rfl

/-- A deletion takes away all it covers. -/
theorem Guides.rewrite_deleted (h : Guides trim final guide offset (first ++ second)) (edit : Edit)
    (hlater : ∀ edit ∈ edits, offset + Text.size (plain first) ≤ edit.span.start)
    (hreplacement : edit.replacement = []) (hstart : edit.span.start ≤ offset)
    (hstop : edit.span.stop = offset + Text.size (plain first)) (rest : Text) :
    rewrite (edit :: (edits ++ guide)) offset (plain first ++ rest) =
      rewrite (edits ++ guide) (offset + Text.size (plain first)) rest := by
  induction first generalizing offset with
  | nil => exact Edit.rewrite_cons_of_deleted hreplacement (Nat.le_of_eq hstop)
  | cons item first ih =>
      obtain ⟨c, quoted⟩ := item
      obtain ⟨hinserted, -, hrest⟩ := h
      have hpos := c.utf8Size_pos
      have hsize : Text.size (plain ((c, quoted) :: first)) = c.utf8Size + Text.size (plain first) :=
        rfl
      rw [hsize] at hlater hstop ⊢
      have hnone : inserted edits offset = [] := Edit.inserted_eq_nil fun edit hmem => by
        have := hlater edit hmem
        omega
      have hself : inserted [edit] offset = [] := by
        rw [inserted, List.filter_cons]
        split <;> simp [hreplacement]
      have hcovered : covers (edit :: (edits ++ guide)) offset = true := by
        rw [covers, List.any_cons, Span.contains, decide_eq_true hstart, decide_eq_true (by omega)]
        rfl
      have hnext := ih hrest (fun edit hmem => by
        have := hlater edit hmem
        omega) (by omega) (by omega)
      change rewrite (edit :: (edits ++ guide)) offset (c :: (plain first ++ rest)) = _
      rw [rewrite, hcovered, ← List.singleton_append, Edit.inserted_append, Edit.inserted_append, hself,
        hnone, hinserted, List.singleton_append, hnext, Nat.add_assoc]
      rfl

theorem strip_of_not_isBlank {text : Text} (h : ∀ c ∈ text, isBlank c = false) (trim quoted : Bool)
    (after : Text) : strip trim after (tag quoted text) = tag quoted text := by
  induction text with
  | nil => rfl
  | cons c text ih =>
      change strip trim after ((c, quoted) :: tag quoted text) = (c, quoted) :: tag quoted text
      rw [strip_cons_of_not_isBlank (h c List.mem_cons_self),
        ih fun d hmem => h d (List.mem_cons_of_mem _ hmem)]

/-- Blanks stay in front of something that keeps the line going. -/
theorem strip_blanks (hblank : (plain marked).all isBlank = true) (hafter : trims text = false)
    (trim : Bool) : strip trim text marked = marked := by
  have htrims : ∀ blanks : Text, blanks.all isBlank = true → trims (blanks ++ text) = false := by
    intro blanks hblanks
    induction blanks with
    | nil => exact hafter
    | cons c blanks ih =>
        rw [List.all_cons, Bool.and_eq_true] at hblanks
        rw [List.cons_append, trims_cons, if_pos hblanks.1, ih hblanks.2]
  induction marked with
  | nil => rfl
  | cons item marked ih =>
      have hrest : (plain marked).all isBlank = true := (Bool.and_eq_true_iff.mp hblank).2
      rw [strip, htrims _ hrest, Bool.and_false, ih hrest]
      rfl

theorem isEmpty_spell_gap (hgap : gap.all Piece.isGap = true) :
    (spell gap).isEmpty = gap.isEmpty := by
  cases gap with
  | nil => rfl
  | cons piece gap =>
      cases piece with
      | blank c => rfl
      | token => cases hgap

theorem rewrite_inserted (hscanned : Scanned [] lineStart others) (hclause : opensClause others = true)
    (hguides : Guides trim final guide offset (tagged others))
    (hlater : ∀ edit ∈ edits, offset < edit.span.start)
    (hrest : rewrite (edits ++ guide) offset (spell others) =
      plain (strip trim [] (tagged (respace want others))) ++ final) :
    rewrite (.insert offset [' '] :: edits ++ guide) offset (spell others) =
      plain (strip trim [] (tagged (.blank ' ' :: respace want others))) ++ final := by
  obtain ⟨clause, hspell⟩ := spell_of_opensClause hscanned hclause
  have hguide : inserted guide offset = [] := by
    refine hguides.inserted_eq_nil fun hnil => ?_
    have hplain := Piece.plain_tagged others
    rw [hnil, hspell] at hplain
    cases hplain
  have hnone : inserted (edits ++ guide) offset = [] := by
    rw [Edit.inserted_append, hguide, List.append_nil]
    exact Edit.inserted_eq_nil fun edit hmem => by
      have := hlater edit hmem
      omega
  have hopen : trims (spell (respace want others)) = false := by
    rw [← (sameEdge_respace want others).trims, hspell]
    rfl
  have hkept : strip trim [] (tagged (.blank ' ' :: respace want others)) =
      (' ', false) :: strip trim [] (tagged (respace want others)) := by
    rw [tagged, strip, List.append_nil, Piece.plain_tagged, hopen, Bool.and_false]
    rfl
  rw [hkept, List.cons_append, Edit.rewrite_insert rfl hnone, hrest]
  rfl

theorem rewrite_deleted_gap (hscanned : Scanned [] lineStart others)
    (hclause : opensClause others = true) (hblank : (spell gap).all isBlank = true)
    (hguides : Guides trim final guide offset (tagged (gap ++ others)))
    (hlater : ∀ edit ∈ edits, offset + width gap < edit.span.start)
    (hrest : rewrite (edits ++ guide) offset (spell (gap ++ others)) =
      plain (strip trim [] (tagged (gap ++ respace want others))) ++ final) :
    rewrite (.delete ⟨offset, offset + width gap⟩ :: edits ++ guide) offset (spell (gap ++ others)) =
      plain (strip trim [] (tagged (respace want others))) ++ final := by
  obtain ⟨clause, hspell⟩ := spell_of_opensClause hscanned hclause
  have hopen : trims (spell others) = false := by
    rw [hspell]
    rfl
  have hopen' : trims (spell (respace want others)) = false := by
    rw [← (sameEdge_respace want others).trims, hopen]
  have hsize : Text.size (plain (tagged gap)) = width gap := by
    rw [Piece.plain_tagged]
    rfl
  have hafter : ∀ edit ∈ edits, offset + Text.size (plain (tagged gap)) ≤ edit.span.start := by
    intro edit hmem
    rw [hsize]
    exact Nat.le_of_lt (hlater edit hmem)
  have hplain : (plain (tagged gap)).all isBlank = true := by
    rw [Piece.plain_tagged, hblank]
  rw [Piece.tagged_append] at hguides
  -- without the deletion the blanks stay in front of what is made of the rest
  have hkept := hguides.rewrite_append hafter (spell others)
  have hdeleted := hguides.rewrite_deleted (.delete ⟨offset, offset + width gap⟩)
    hafter rfl (Nat.le_refl _) (by rw [hsize]; rfl) (spell others)
  rw [strip_blanks hplain (by rw [Piece.plain_tagged, hopen]), Piece.plain_tagged,
    ← Piece.spell_append, hrest, Piece.tagged_append, strip_append,
    strip_blanks hplain (by rw [Piece.plain_tagged, List.append_nil, hopen']),
    plain_append, Piece.plain_tagged, List.append_assoc, List.append_cancel_left_eq]
    at hkept
  rw [Piece.plain_tagged, ← hkept, ← Piece.spell_append] at hdeleted
  exact hdeleted

theorem rewrite_regap (hgap : gap.all Piece.isGap = true) (hothers : Leads others)
    (hclause : opensClause others = true) (hscanned : Scanned [] lineStart (gap ++ others))
    (hguides : Guides trim final guide offset (tagged (gap ++ others)))
    (hedits : edits = keywordEdits text want (locate offset (gap ++ others)))
    (hrest : rewrite (edits ++ guide) offset (spell (gap ++ others)) =
      plain (strip trim [] (tagged (gap ++ respace want others))) ++ final) :
    rewrite ((gapEdit? want offset (spell gap)).toList ++ edits ++ guide) offset
        (spell (gap ++ others)) =
      plain (strip trim [] (tagged (regap want (gap ++ respace want others)))) ++ final := by
  obtain ⟨-, hscannedOthers⟩ := Piece.scanned_append.mp hscanned
  have hlater : ∀ edit ∈ edits, offset + width gap < edit.span.start := by
    rw [hedits, locate_gap hgap]
    exact lt_start_of_mem_keywordEdits
  rw [regap_append hgap (leads_respace hothers), opensClause_respace, if_pos hclause, gapEdit?,
    isEmpty_spell_gap hgap]
  cases want with
  | true =>
      simp only [if_true]
      split
      · next hempty =>
          obtain rfl : gap = [] := by simpa using hempty
          exact rewrite_inserted hscannedOthers hclause hguides hlater hrest
      · exact hrest
  | false =>
      simp only [Bool.false_eq_true, if_false]
      cases hblank : (spell gap).all isBlank with
      | false =>
          rw [Bool.and_false]
          exact hrest
      | true =>
          cases hempty : gap.isEmpty with
          | true =>
              obtain rfl : gap = [] := by simpa using hempty
              exact hrest
          | false => exact rewrite_deleted_gap hscannedOthers hclause hblank hguides hlater hrest

theorem rewrite_behind (kind : TokenKind) (lexeme : Text) (hgap : gap.all Piece.isGap = true)
    (hothers : Leads others)
    (hscanned : Scanned [] lineStart (gap ++ others))
    (hguides : Guides trim final guide offset (tagged (gap ++ others)))
    (hedits : edits = keywordEdits text want (locate offset (gap ++ others)))
    (hrest : rewrite (edits ++ guide) offset (spell (gap ++ others)) =
      plain (strip trim [] (tagged (gap ++ respace want others))) ++ final) :
    rewrite ((if isSpaced kind lexeme && opensClause others then
        gapEdit? want offset (spell gap) else none).toList ++ edits ++ guide) offset
        (spell (gap ++ others)) =
      plain (strip trim [] (tagged (if isSpaced kind lexeme then
        regap want (gap ++ respace want others) else gap ++ respace want others))) ++ final := by
  cases isSpaced kind lexeme with
  | false => exact hrest
  | true =>
      rw [Bool.true_and, if_pos rfl]
      cases hclause : opensClause others with
      | false =>
          rw [regap_append hgap (leads_respace hothers), opensClause_respace, hclause]
          exact hrest
      | true => exact rewrite_regap hgap hothers hclause hscanned hguides hedits hrest

/-- How a lexeme is trimmed does not depend on the gap behind it. -/
theorem strip_lexeme_respace (hgap : gap.all Piece.isGap = true) :
    strip trim (plain (tagged (if isSpaced kind lexeme then
        regap want (gap ++ respace want others) else gap ++ respace want others)))
        (tag (kind == .string) lexeme) =
      strip trim (spell (gap ++ others)) (tag (kind == .string) lexeme) := by
  split
  · next hspaced =>
      have hblank := not_isBlank_of_isSpaced hspaced
      rw [strip_of_not_isBlank hblank, strip_of_not_isBlank hblank]
  · have hedge := sameEdge_respace want (gap ++ others)
    rw [respace_append hgap] at hedge
    rw [Piece.plain_tagged]
    exact (strip_congr hedge _).symm

/-- **What the edits make of pieces.** -/
theorem rewrite_pieces (before : Text) (hscanned : Scanned [] lineStart pieces)
    (hguides : Guides trim final guide before.size (tagged pieces))
    (htext : text = before ++ spell pieces) :
    rewrite (keywordEdits text want (locate before.size pieces) ++ guide) before.size (spell pieces) =
      plain (strip trim [] (tagged (respace want pieces))) ++ final := by
  induction pieces generalizing before lineStart with
  | nil => exact hguides
  | cons piece pieces ih =>
      cases piece with
      | blank c =>
          -- a blank is rewritten apart from what follows, as edits for keywords come later
          have hguides' : Guides trim final guide before.size ([(c, false)] ++ tagged pieces) := hguides
          have hstart : (before ++ [c]).size = before.size + c.utf8Size := Text.size_append before [c]
          have hrest := ih (before ++ [c]) hscanned.2 (hstart ▸ hguides'.append)
            (by rw [htext, List.append_assoc]; rfl)
          rw [hstart] at hrest
          have hfirst := hguides'.rewrite_append
            (fun edit hmem => Nat.le_of_lt (lt_start_of_mem_keywordEdits edit hmem) :
              ∀ edit ∈ keywordEdits text want (locate (before.size + c.utf8Size) pieces),
                before.size + Text.size (plain [(c, false)]) ≤ edit.span.start) (spell pieces)
          refine hfirst.trans ?_
          change plain (strip trim (plain (tagged pieces)) [(c, false)]) ++
            rewrite (keywordEdits text want (locate (before.size + c.utf8Size) pieces) ++ guide)
              (before.size + c.utf8Size) (spell pieces) =
            plain (strip trim [] ([(c, false)] ++ tagged (respace want pieces))) ++ final
          rw [hrest, strip_append, plain_append, List.append_nil, Piece.plain_tagged,
            Piece.plain_tagged, strip_congr (sameEdge_respace want pieces), List.append_assoc]
      | token kind lexeme =>
          obtain ⟨gap, others, rfl, hgap, hothers⟩ := exists_gap pieces
          have hguides' : Guides trim final guide before.size
            (tag (kind == .string) lexeme ++ tagged (gap ++ others)) := hguides
          have hbehind := hguides'.append
          rw [plain_tag] at hbehind
          have hrest := ih (before ++ lexeme) hscanned.2 (by rwa [Text.size_append])
            (by rw [htext, List.append_assoc]; rfl)
          rw [Text.size_append, respace_append hgap] at hrest
          have hafter := rewrite_behind kind lexeme hgap hothers hscanned.2 hbehind rfl hrest
          -- neither the edit for this gap nor a later one reaches into the lexeme
          have hlater : ∀ edit ∈ (if isSpaced kind lexeme && opensClause others then
                gapEdit? want (before.size + lexeme.size) (spell gap) else none).toList ++
              keywordEdits text want (locate (before.size + lexeme.size) (gap ++ others)),
              before.size + Text.size (plain (tag (kind == .string) lexeme)) ≤ edit.span.start := by
            rw [plain_tag]
            intro edit hmem
            rcases List.mem_append.mp hmem with hmem | hmem
            · rw [Option.mem_toList] at hmem
              split at hmem
              · exact Nat.le_of_eq (by rw [(span_of_gapEdit? hmem).1])
              · cases hmem
            · exact Nat.le_of_lt (lt_start_of_mem_keywordEdits edit hmem)
          have hlexeme := hguides'.rewrite_append hlater (spell (gap ++ others))
          rw [plain_tag, hafter, Piece.plain_tagged] at hlexeme
          rw [keywordEdits_token hgap hothers (by
            rw [htext, Piece.spell_cons, Piece.spell_append]
            rfl)]
          refine hlexeme.trans ?_
          rw [respace, respace_append hgap, tagged, strip_append, plain_append, List.append_nil,
            strip_lexeme_respace hgap, List.append_assoc]

end Spacing

end CSharpTidy
