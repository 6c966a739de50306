import CSharpTidy.Proofs.Format.Marked
import CSharpTidy.Proofs.Tree.Frame

/-!
# The spaces after control keywords

`respace` does to pieces what the edits after control keywords do to a text: it puts a blank in front
of a parenthesis, or takes the blanks there away. The tokens stay, they scan as before, and a second
pass finds nothing to do.
-/

namespace CSharpTidy

namespace Piece

def isGap : Piece → Bool
  | blank _ => true
  | token _ _ => false

/-- The tokens among pieces, without their places. -/
def tokens : List Piece → List (TokenKind × Text)
  | [] => []
  | blank _ :: pieces => tokens pieces
  | token kind lexeme :: pieces => (kind, lexeme) :: tokens pieces

theorem tokens_append (first second : List Piece) :
    tokens (first ++ second) = tokens first ++ tokens second := by
  induction first with
  | nil => rfl
  | cons piece first ih => cases piece <;> simp [tokens, ih]

theorem length_tokens_append (first second : List Piece) :
    (tokens (first ++ second)).length = (tokens first).length + (tokens second).length := by
  rw [tokens_append, List.length_append]

theorem map_locate (offset : Nat) (pieces : List Piece) :
    (locate offset pieces).map (fun token => (token.kind, token.lexeme)) = tokens pieces := by
  induction pieces generalizing offset with
  | nil => rfl
  | cons piece pieces ih => cases piece <;> simp [locate, tokens, ih]

end Piece

namespace Spacing

open Piece (spell tagged locate Scanned width)
open Scan (Alike)

variable {kind : TokenKind} {lexeme rest text before : Text} {lineStart want : Bool} {c : Char}
  {pieces gap others : List Piece} {offset offset' : Nat}

def isSpaced (kind : TokenKind) (lexeme : Text) : Bool :=
  spacedKeywords.any (Token.isWord ⟨kind, lexeme, 0⟩)

/-- Whether pieces begin with the parenthesis of a clause. -/
def opensClause : List Piece → Bool
  | .token kind _ :: _ => kind == .punctuation '('
  | _ => false

/-- The pieces behind a keyword with the gap in front of a clause set right. -/
def regap (want : Bool) (pieces : List Piece) : List Piece :=
  let gap := pieces.takeWhile Piece.isGap
  let others := pieces.dropWhile Piece.isGap
  if opensClause others then
    if want then if gap.isEmpty then .blank ' ' :: pieces else pieces
    else if (spell gap).all isBlank then others else pieces
  else pieces

/-- Pieces with all gaps behind keywords set right. -/
def respace (want : Bool) : List Piece → List Piece
  | [] => []
  | .blank c :: pieces => .blank c :: respace want pieces
  | .token kind lexeme :: pieces =>
      .token kind lexeme ::
        if isSpaced kind lexeme then regap want (respace want pieces) else respace want pieces

/-- Pieces that begin with a token, if there are any. -/
def Leads (pieces : List Piece) : Prop := ∀ piece ∈ pieces.head?, piece.isGap = false

theorem exists_gap (pieces : List Piece) :
    ∃ gap others, pieces = gap ++ others ∧ gap.all Piece.isGap = true ∧ Leads others := by
  refine ⟨pieces.takeWhile Piece.isGap, pieces.dropWhile Piece.isGap,
    (List.takeWhile_append_dropWhile).symm, List.all_takeWhile, fun piece hmem => ?_⟩
  have hhead := List.head?_dropWhile_not Piece.isGap pieces
  rw [Option.mem_def.mp hmem] at hhead
  simpa using hhead

theorem takeWhile_gap (hgap : gap.all Piece.isGap = true) (hothers : Leads others) :
    (gap ++ others).takeWhile Piece.isGap = gap ∧
      (gap ++ others).dropWhile Piece.isGap = others := by
  have hall := List.all_eq_true.mp hgap
  rw [List.takeWhile_append_of_pos hall, List.dropWhile_append_of_pos hall]
  cases others with
  | nil => simp
  | cons piece others =>
      have hpiece : piece.isGap = false := hothers piece rfl
      simp [hpiece]

theorem regap_append (hgap : gap.all Piece.isGap = true) (hothers : Leads others) :
    regap want (gap ++ others) =
      if opensClause others then
        if want then if gap.isEmpty then .blank ' ' :: (gap ++ others) else gap ++ others
        else if (spell gap).all isBlank then others else gap ++ others
      else gap ++ others := by
  obtain ⟨htake, hdrop⟩ := takeWhile_gap hgap hothers
  unfold regap
  simp only [htake, hdrop]

/-- A gap is left as it is, a space is put in front of a clause, or the blanks there go. -/
theorem regap_cases (want : Bool) (pieces : List Piece) :
    regap want pieces = pieces ∨
      (opensClause pieces = true ∧ regap want pieces = .blank ' ' :: pieces) ∨
      ∃ gap others, pieces = gap ++ others ∧ gap.all Piece.isGap = true ∧
        (spell gap).all isBlank = true ∧ opensClause others = true ∧ regap want pieces = others := by
  obtain ⟨gap, others, rfl, hgap, hothers⟩ := exists_gap pieces
  rw [regap_append hgap hothers]
  split_ifs with hopens _ hempty hblank
  · obtain rfl : gap = [] := List.isEmpty_iff.mp hempty
    exact .inr (.inl ⟨hopens, rfl⟩)
  · exact .inl rfl
  · exact .inr (.inr ⟨gap, others, rfl, hgap, hblank, hopens, rfl⟩)
  · exact .inl rfl
  · exact .inl rfl

theorem respace_append (hgap : gap.all Piece.isGap = true) (others : List Piece) :
    respace want (gap ++ others) = gap ++ respace want others := by
  induction gap with
  | nil => rfl
  | cons piece gap ih =>
      cases piece with
      | blank c =>
          rw [List.cons_append, respace, ih (Bool.and_eq_true_iff.mp hgap).2, List.cons_append]
      | token => cases hgap

theorem leads_respace (h : Leads others) : Leads (respace want others) := by
  cases others with
  | nil => exact h
  | cons piece others =>
      cases piece with
      | blank c => cases h (.blank c) rfl
      | token kind lexeme =>
          intro piece hmem
          cases hmem
          rfl

theorem opensClause_respace (others : List Piece) :
    opensClause (respace want others) = opensClause others := by
  cases others with
  | nil => rfl
  | cons piece others => cases piece <;> rfl

/-! ## Keywords -/

theorem isSpaced_iff :
    isSpaced kind lexeme = true ↔
      kind = .identifier ∧ ∃ word ∈ spacedKeywords, lexeme = word.toList := by
  simp only [isSpaced, List.any_eq_true, Token.isWord_iff]
  constructor
  · rintro ⟨word, hword, hkind, hlexeme⟩
    exact ⟨hkind, word, hword, hlexeme⟩
  · rintro ⟨hkind, word, hword, hlexeme⟩
    exact ⟨word, hword, hkind, hlexeme⟩

theorem exists_letters (h : isSpaced kind lexeme = true) :
    kind = .identifier ∧ ∃ c tail, lexeme = c :: tail ∧ c.isAlphanum = true ∧ c.isDigit = false ∧
      tail.all Char.isAlphanum = true := by
  obtain ⟨hkind, word, hword, rfl⟩ := isSpaced_iff.mp h
  refine ⟨hkind, ?_⟩
  simp only [spacedKeywords, List.mem_cons, List.not_mem_nil, or_false] at hword
  rcases hword with rfl | rfl | rfl | rfl | rfl | rfl | rfl | rfl | rfl <;>
    exact ⟨_, _, rfl, by decide, by decide, by decide⟩

theorem takes_of_isSpaced (h : isSpaced kind lexeme = true)
    (hrest : rest.head?.any Scan.isIdentifierChar = false) : Scan.Takes lineStart kind lexeme rest := by
  obtain ⟨rfl, c, tail, rfl, hletter, hdigit, htail⟩ := exists_letters h
  refine ⟨c, tail, rfl, Scan.isBlank_of_isIdentifierChar (Scan.isIdentifierChar_of_isAlphanum hletter),
    ?_⟩
  rw [Scan.head_of_word (Scan.isIdentifierChar_of_isAlphanum hletter), if_neg (by simp [hdigit]),
    Scan.identifierLength_of_all (fun d hmem =>
      Scan.isIdentifierChar_of_isAlphanum (List.all_eq_true.mp htail d hmem)) hrest]

theorem not_isBlank_of_isSpaced (h : isSpaced kind lexeme = true) :
    ∀ c ∈ lexeme, isBlank c = false := by
  obtain ⟨rfl, c, tail, rfl, hletter, -, htail⟩ := exists_letters h
  have hword : ∀ d : Char, d.isAlphanum = true → isBlank d = false := by
    intro d hd
    rw [Bool.eq_false_iff]
    intro hblank
    have hidentifier := Scan.isIdentifierChar_of_isBlank (isBlank_of_spacing hblank)
    rw [Scan.isIdentifierChar_of_isAlphanum hd] at hidentifier
    cases hidentifier
  intro d hmem
  rcases List.mem_cons.mp hmem with rfl | hmem
  · exact hword d hletter
  · exact hword d (List.all_eq_true.mp htail d hmem)

theorem spell_of_opensClause (hscanned : Scanned rest lineStart others)
    (h : opensClause others = true) : ∃ text, spell others = '(' :: text := by
  cases others with
  | nil => cases h
  | cons piece others =>
      cases piece with
      | blank => cases h
      | token kind lexeme =>
          obtain rfl : kind = .punctuation '(' := beq_iff_eq.mp h
          obtain rfl := hscanned.1.lexeme_eq
          exact ⟨spell others, rfl⟩

/-! ## The pieces afterwards -/

theorem scanned_gap (hgap : gap.all Piece.isGap = true) (hscanned : Scanned rest lineStart gap) :
    (spell gap).all Scan.isBlank = true := by
  induction gap generalizing lineStart with
  | nil => rfl
  | cons piece gap ih =>
      cases piece with
      | blank c =>
          rw [Piece.spell_cons, Piece.text, List.singleton_append, List.all_cons, hscanned.1,
            ih (Bool.and_eq_true_iff.mp hgap).2 hscanned.2]
          rfl
      | token => cases hgap

theorem lineStartAfter_gap (hgap : gap.all Piece.isGap = true)
    (hblank : (spell gap).all isBlank = true) : Piece.lineStartAfter false gap = false := by
  induction gap with
  | nil => rfl
  | cons piece gap ih =>
      cases piece with
      | blank c =>
          rw [Piece.spell_cons, Piece.text, List.singleton_append, List.all_cons,
            Bool.and_eq_true] at hblank
          have hfeed : (c == '\n') = false := by
            rw [beq_eq_false_iff_ne]
            rintro rfl
            exact absurd hblank.1 (by decide)
          rw [Piece.lineStartAfter, hfeed]
          exact ih (Bool.and_eq_true_iff.mp hgap).2 hblank.2
      | token => cases hgap

/-- A gap that is set right scans, and the keyword in front of it is taken. -/
theorem scanned_regap (hscanned : Scanned [] false pieces) (hword : isSpaced kind lexeme = true)
    (htakes : Scan.Takes lineStart kind lexeme (spell pieces)) (want : Bool) :
    Scanned [] false (regap want pieces) ∧
      Scan.Takes lineStart kind lexeme (spell (regap want pieces)) := by
  obtain hkept | ⟨-, hadded⟩ | ⟨gap, others, rfl, hgap, hblank, hopens, hremoved⟩ :=
    regap_cases want pieces
  · rw [hkept]
    exact ⟨hscanned, htakes⟩
  · rw [hadded]
    exact ⟨⟨rfl, hscanned⟩, takes_of_isSpaced hword rfl⟩
  · have hothers := (Piece.scanned_append.mp hscanned).2
    rw [lineStartAfter_gap hgap hblank] at hothers
    obtain ⟨text, htext⟩ := spell_of_opensClause hothers hopens
    rw [hremoved]
    refine ⟨hothers, takes_of_isSpaced hword ?_⟩
    rw [htext]
    rfl

/-- Pieces that are set right scan, and look from in front as before. -/
theorem scanned_respace (h : Scanned [] lineStart pieces) (want : Bool) :
    Scanned [] lineStart (respace want pieces) ∧
      Alike (spell pieces) (spell (respace want pieces)) := by
  induction pieces generalizing lineStart with
  | nil => exact ⟨trivial, rfl, id, id⟩
  | cons piece pieces ih =>
      cases piece with
      | blank c =>
          obtain ⟨hscanned, halike⟩ := ih h.2
          exact ⟨⟨h.1, hscanned⟩, halike.append [c]⟩
      | token kind lexeme =>
          obtain ⟨htakes, hrest⟩ := h
          obtain ⟨hscanned, halike⟩ := ih hrest
          rw [List.append_nil] at htakes
          have htakes' := htakes.congr halike
          rw [respace]
          split
          · next hword =>
              obtain ⟨hregap, htaken⟩ := scanned_regap hscanned hword htakes' want
              refine ⟨⟨by rwa [List.append_nil], hregap⟩, ?_⟩
              obtain ⟨-, c, tail, rfl, hletter, -⟩ := exists_letters hword
              exact Scan.alike_of_isAlphanum hletter hletter _ _
          · exact ⟨⟨by rwa [List.append_nil], hscanned⟩, halike.append lexeme⟩

theorem sameEdge_respace (want : Bool) (pieces : List Piece) :
    SameEdge (spell pieces) (spell (respace want pieces)) := by
  induction pieces with
  | nil => exact .refl []
  | cons piece pieces ih =>
      cases piece with
      | blank c => exact ih.cons c
      | token kind lexeme =>
          rw [respace]
          split
          · next hword =>
              have hblank := not_isBlank_of_isSpaced hword
              obtain ⟨-, c, tail, rfl, hletter, -⟩ := exists_letters hword
              have hne : ∀ mark : Char, mark.isAlphanum = false → c ≠ mark := by
                rintro mark hmark rfl
                rw [hletter] at hmark
                cases hmark
              exact sameEdge_of_ne (hblank c List.mem_cons_self) (hne '\n' (by decide))
                (hne '\r' (by decide)) _ _
          · exact ih.append lexeme

theorem locate_gap (hgap : gap.all Piece.isGap = true) (offset : Nat) (others : List Piece) :
    locate offset (gap ++ others) = locate (offset + width gap) others := by
  rw [Piece.locate_append]
  have hnone : locate offset gap = [] := by
    clear others
    induction gap generalizing offset with
    | nil => rfl
    | cons piece gap ih =>
        cases piece with
        | blank c => exact ih (Bool.and_eq_true_iff.mp hgap).2 _
        | token => cases hgap
  rw [hnone, List.nil_append]
  rfl

theorem tokens_gap (hgap : gap.all Piece.isGap = true) : Piece.tokens gap = [] := by
  rw [← Piece.map_locate 0, ← List.append_nil gap, locate_gap hgap]
  rfl

theorem tokens_regap (want : Bool) (pieces : List Piece) :
    Piece.tokens (regap want pieces) = Piece.tokens pieces := by
  obtain hkept | ⟨-, hadded⟩ | ⟨gap, others, rfl, hgap, -, -, hremoved⟩ := regap_cases want pieces
  · rw [hkept]
  · rw [hadded]
    rfl
  · rw [hremoved, Piece.tokens_append, tokens_gap hgap, List.nil_append]

theorem tokens_respace (want : Bool) (pieces : List Piece) :
    Piece.tokens (respace want pieces) = Piece.tokens pieces := by
  induction pieces with
  | nil => rfl
  | cons piece pieces ih =>
      cases piece with
      | blank c => exact ih
      | token kind lexeme =>
          rw [respace, Piece.tokens, Piece.tokens]
          split
          · rw [tokens_regap, ih]
          · rw [ih]

end Spacing

end CSharpTidy
