import CSharpTidy.Proofs.Format.Rewritten

/-!
# Keywords with nothing to do behind them

Whether the gap behind a keyword is right can be told from the text that follows the keyword. The gaps
are right once they have been set, trimming leaves them so, and then no edits come from keywords.
-/

namespace CSharpTidy

namespace Spacing

open Piece (spell tagged locate Scanned)

variable {kind : TokenKind} {lexeme text before final : Text} {lineStart want trim : Bool} {c : Char}
  {pieces gap others : List Piece} {marked : List (Char × Bool)}

/-- If a clause comes next then the gap in front of it is right. -/
def Clear (want : Bool) (text : Text) : Prop :=
  (text.dropWhile Scan.isBlank).head? = some '(' →
    if want then text.head? ≠ some '('
    else text.head? = some '(' ∨ (text.takeWhile Scan.isBlank).all isBlank = false

/-- The gaps behind all keywords are right. -/
def Spaced (want : Bool) : List Piece → Prop
  | [] => True
  | .blank _ :: pieces => Spaced want pieces
  | .token kind lexeme :: pieces =>
      (isSpaced kind lexeme = true → Clear want (spell pieces)) ∧ Spaced want pieces

/-! ## What trimming leaves -/

theorem dropWhile_of_isFinal (h : IsFinal final) : final.dropWhile Scan.isBlank = [] := by
  rcases h with rfl | rfl | rfl <;> rfl

/-- Trimming leaves what comes behind blanks. -/
theorem head?_dropWhile_strip (hfinal : IsFinal final) (trim : Bool)
    (marked : List (Char × Bool)) :
    ((plain (strip trim [] marked) ++ final).dropWhile Scan.isBlank).head? =
      ((plain marked).dropWhile Scan.isBlank).head? := by
  induction marked with
  | nil => rw [strip]; exact congrArg List.head? (dropWhile_of_isFinal hfinal)
  | cons item marked ih =>
      obtain ⟨c, quoted⟩ := item
      change _ = ((c :: plain marked).dropWhile Scan.isBlank).head?
      rw [strip, List.dropWhile_cons]
      split
      · next hremoved =>
          simp only [Bool.and_eq_true] at hremoved
          rw [if_pos (isBlank_of_spacing hremoved.1.1.2), ih]
      · change ((c :: (plain (strip trim [] marked) ++ final)).dropWhile Scan.isBlank).head? = _
        rw [List.dropWhile_cons]
        split
        · exact ih
        · rfl

/-- Trimming leaves the blanks that are more than spaces. -/
theorem all_takeWhile_strip (trim : Bool)
    (h : ((plain marked).takeWhile Scan.isBlank).all isBlank = false) :
    ((plain (strip trim [] marked) ++ final).takeWhile Scan.isBlank).all isBlank = false := by
  induction marked with
  | nil => cases h
  | cons item marked ih =>
      obtain ⟨c, quoted⟩ := item
      change ((c :: plain marked).takeWhile Scan.isBlank).all isBlank = false at h
      rw [List.takeWhile_cons] at h
      split at h
      · next hblank =>
          rw [List.all_cons, Bool.and_eq_false_iff] at h
          rw [strip]
          split
          · next hremoved =>
              simp only [Bool.and_eq_true] at hremoved
              rcases h with h | h
              · rw [hremoved.1.1.2] at h
                cases h
              · exact ih h
          · change ((c :: (plain (strip trim [] marked) ++ final)).takeWhile Scan.isBlank).all
              isBlank = false
            rw [List.takeWhile_cons, if_pos hblank, List.all_cons, Bool.and_eq_false_iff]
            rcases h with h | h
            · exact .inl h
            · exact .inr (ih h)
      · cases h

theorem Clear.strip (h : Clear want (plain marked)) (hfinal : IsFinal final) (trim : Bool) :
    Clear want (plain (strip trim [] marked) ++ final) := by
  intro hclause
  rw [head?_dropWhile_strip hfinal] at hclause
  have hhead : (plain (Spacing.strip trim [] marked) ++ final).head? = some '(' ↔
      (plain marked).head? = some '(' := by
    have hsight := Scan.head?_eq_of_sight '(' (sight_strip hfinal trim marked) (by decide) (by decide)
    simpa only [beq_iff_eq] using Bool.eq_iff_iff.mp hsight
  have hgap := h hclause
  cases want with
  | true => simpa only [if_true, ne_eq, hhead] using hgap
  | false =>
      simp only [Bool.false_eq_true, if_false, hhead] at hgap ⊢
      exact hgap.imp_right (all_takeWhile_strip trim)

/-! ## Gaps that are set right -/

theorem takeWhile_append_of_not {gap rest : Text} (hgap : gap.all Scan.isBlank = true)
    (hrest : ∀ c ∈ rest.head?, Scan.isBlank c = false) :
    (gap ++ rest).takeWhile Scan.isBlank = gap ∧ (gap ++ rest).dropWhile Scan.isBlank = rest := by
  rw [List.takeWhile_append_of_pos (List.all_eq_true.mp hgap),
    List.dropWhile_append_of_pos (List.all_eq_true.mp hgap)]
  cases rest with
  | nil => simp
  | cons c rest =>
      have hc : Scan.isBlank c = false := hrest c rfl
      simp [hc]

theorem not_isBlank_head? (hscanned : Scanned [] lineStart others) (hothers : Leads others) :
    ∀ c ∈ (spell others).head?, Scan.isBlank c = false := by
  intro c hmem
  cases others with
  | nil => cases hmem
  | cons piece others =>
      cases piece with
      | blank => cases hothers _ rfl
      | token kind lexeme =>
          obtain ⟨⟨d, tail, rfl, hblank, -⟩, -⟩ := hscanned
          obtain rfl : d = c := by simpa [Piece.text] using hmem
          exact hblank

theorem opensClause_of_head? (hscanned : Scanned [] lineStart others) (hothers : Leads others)
    (h : (spell others).head? = some '(') : opensClause others = true := by
  cases others with
  | nil => cases h
  | cons piece others =>
      cases piece with
      | blank => cases hothers _ rfl
      | token kind lexeme =>
          obtain ⟨⟨d, tail, rfl, -, hhead⟩, -⟩ := hscanned
          obtain rfl : d = '(' := by simpa [Piece.text] using h
          have halone : Scan.head lineStart '(' (tail ++ spell others) = .ok (.punctuation '(', 0) :=
            (Scan.Alone.of_not_mem (by decide) (by decide)).head_eq
          rw [List.append_nil, halone, Except.ok.injEq, Prod.mk.injEq] at hhead
          rw [opensClause, ← hhead.1]
          rfl

theorem Spaced.of_gap (hgap : gap.all Piece.isGap = true) :
    Spaced want (gap ++ others) ↔ Spaced want others := by
  induction gap with
  | nil => exact Iff.rfl
  | cons piece gap ih =>
      cases piece with
      | blank c => exact ih (Bool.and_eq_true_iff.mp hgap).2
      | token => cases hgap

theorem spaced_regap (h : Spaced want pieces) : Spaced want (regap want pieces) := by
  obtain hkept | ⟨-, hadded⟩ | ⟨gap, others, rfl, hgap, -, -, hremoved⟩ := regap_cases want pieces
  · rwa [hkept]
  · rwa [hadded]
  · rw [hremoved]
    exact (Spaced.of_gap hgap).mp h

theorem clear_regap (hscanned : Scanned [] lineStart pieces) :
    Clear want (spell (regap want pieces)) := by
  obtain ⟨gap, others, rfl, hgap, hothers⟩ := exists_gap pieces
  obtain ⟨hscannedGap, hscannedOthers⟩ := Piece.scanned_append.mp hscanned
  have hblank := scanned_gap hgap hscannedGap
  obtain ⟨htake, hdrop⟩ :=
    takeWhile_append_of_not hblank (not_isBlank_head? hscannedOthers hothers)
  intro hclause
  rw [regap_append hgap hothers] at hclause ⊢
  cases hopens : opensClause others with
  | false =>
      rw [hopens, if_neg Bool.false_ne_true, Piece.spell_append, hdrop] at hclause
      -- without a clause nothing has been set, and blanks do not lead to a parenthesis
      rw [opensClause_of_head? hscannedOthers hothers hclause] at hopens
      cases hopens
  | true =>
      obtain ⟨text, htext⟩ := spell_of_opensClause hscannedOthers hopens
      rw [if_pos rfl]
      cases want with
      | true =>
          simp only [if_true]
          split
          · exact fun h => by cases h
          · next hempty =>
              rw [← isEmpty_spell_gap hgap, List.isEmpty_iff] at hempty
              obtain ⟨c, tail, hspell⟩ := List.exists_cons_of_ne_nil hempty
              rw [Piece.spell_append, hspell]
              intro h
              obtain rfl : c = '(' := by simpa using h
              rw [hspell] at hblank
              exact absurd (Bool.and_eq_true_iff.mp hblank).1 (by decide)
      | false =>
          simp only [Bool.false_eq_true, if_false]
          split
          · exact .inl (by rw [htext]; rfl)
          · next hmore =>
              right
              rw [Piece.spell_append, htake]
              simpa using hmore

theorem spaced_respace (hscanned : Scanned [] lineStart pieces) :
    Spaced want (respace want pieces) := by
  induction pieces generalizing lineStart with
  | nil => trivial
  | cons piece pieces ih =>
      cases piece with
      | blank c => exact ih hscanned.2
      | token kind lexeme =>
          have hrest := ih hscanned.2
          have hscannedRest := (scanned_respace hscanned.2 want).1
          rw [respace]
          split
          · exact ⟨fun _ => clear_regap hscannedRest, spaced_regap hrest⟩
          · next hword => exact ⟨fun h => absurd h hword, hrest⟩

/-! ## Nothing to do -/

theorem gapEdit?_eq_none (hscanned : Scanned [] lineStart (gap ++ others))
    (hgap : gap.all Piece.isGap = true) (hothers : Leads others)
    (hopens : opensClause others = true) (h : Clear want (spell (gap ++ others))) (offset : Nat) :
    gapEdit? want offset (spell gap) = none := by
  obtain ⟨hscannedGap, hscannedOthers⟩ := Piece.scanned_append.mp hscanned
  have hblank := scanned_gap hgap hscannedGap
  obtain ⟨htake, hdrop⟩ :=
    takeWhile_append_of_not hblank (not_isBlank_head? hscannedOthers hothers)
  obtain ⟨text, htext⟩ := spell_of_opensClause hscannedOthers hopens
  rw [Clear, Piece.spell_append, htake, hdrop, htext] at h
  have hclear := h rfl
  unfold gapEdit?
  cases hspell : spell gap with
  | nil =>
      rw [hspell] at hclear
      cases want with
      | true => exact absurd rfl hclear
      | false => rfl
  | cons c tail =>
      rw [hspell] at hblank hclear
      cases want with
      | true => rfl
      | false =>
          rcases hclear with hclear | hclear
          · obtain rfl : c = '(' := by simpa using hclear
            exact absurd (Bool.and_eq_true_iff.mp hblank).1 (by decide)
          · simp only [Bool.false_eq_true, if_false, hclear, Bool.and_false]

theorem keywordEdits_eq_nil (before : Text) (hscanned : Scanned [] lineStart pieces)
    (htext : text = before ++ spell pieces) (h : Spaced want pieces) :
    keywordEdits text want (locate before.size pieces) = [] := by
  induction pieces generalizing before lineStart with
  | nil => rfl
  | cons piece pieces ih =>
      cases piece with
      | blank c =>
          have hrest := ih (before ++ [c]) hscanned.2 (by rw [htext, List.append_assoc]; rfl) h
          rw [Text.size_append] at hrest
          exact hrest
      | token kind lexeme =>
          obtain ⟨gap, others, rfl, hgap, hothers⟩ := exists_gap pieces
          have hrest := ih (before ++ lexeme) hscanned.2 (by rw [htext, List.append_assoc]; rfl) h.2
          rw [Text.size_append] at hrest
          rw [keywordEdits_token hgap hothers (by
            rw [htext, Piece.spell_cons, Piece.spell_append]
            rfl), hrest, List.append_nil]
          split
          · next hclause =>
              obtain ⟨hspaced, hopens⟩ := Bool.and_eq_true_iff.mp hclause
              rw [gapEdit?_eq_none hscanned.2 hgap hothers hopens (h.1 hspaced)]
              rfl
          · rfl

theorem respace_eq_self (hscanned : Scanned [] lineStart pieces) (h : Spaced want pieces) :
    respace want pieces = pieces := by
  induction pieces generalizing lineStart with
  | nil => rfl
  | cons piece pieces ih =>
      cases piece with
      | blank c => rw [respace, ih hscanned.2 h]
      | token kind lexeme =>
          rw [respace, ih hscanned.2 h.2]
          split
          · next hspaced =>
              obtain ⟨gap, others, rfl, hgap, hothers⟩ := exists_gap pieces
              rw [regap_append hgap hothers]
              cases hopens : opensClause others with
              | false => rfl
              | true =>
                  -- where the gap needs no edit, setting it right chooses the gap itself
                  have hedit :=
                    gapEdit?_eq_none hscanned.2 hgap hothers hopens (h.1 hspaced) 0
                  rw [gapEdit?, isEmpty_spell_gap hgap] at hedit
                  rw [if_pos rfl]
                  cases want with
                  | true =>
                      simp only [if_true] at hedit ⊢
                      split at hedit
                      · cases hedit
                      · next hempty => rw [if_neg hempty]
                  | false =>
                      simp only [Bool.false_eq_true, if_false] at hedit ⊢
                      split at hedit
                      · cases hedit
                      · next hkept =>
                          split
                          · next hblank =>
                              rw [hblank, Bool.and_true, Bool.not_eq_true, Bool.not_eq_false',
                                List.isEmpty_iff] at hkept
                              rw [hkept, List.nil_append]
                          · rfl
          · rfl

end Spacing

end CSharpTidy
