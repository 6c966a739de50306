import CSharpTidy.Proofs.Token.Lookahead

/-!
# Pieces that scan in any context

Some tokens end by themselves, whatever follows, and only `#` looks at what stands before it. So
pieces that end with such a token, or with a blank, can be moved.
-/

namespace CSharpTidy

/-- Tokens of these kinds end by themselves. -/
def TokenKind.isClosed : TokenKind → Bool
  | blockComment => true
  | punctuation mark => mark == ';'
  | _ => false

namespace Scan

variable {c : Char} {text lexeme rest rest' : Text} {kind : TokenKind} {lineStart lineStart' : Bool}

/-- Only `#` looks at what stands before it. -/
theorem Heads.at {length : Nat} (h : Heads lineStart c text kind length)
    (hline : kind = .preprocessor → lineStart' = true) (hhash : kind ≠ .punctuation '#') :
    Heads lineStart' c text kind length := by
  cases h with
  | preprocessor hc => exact .preprocessor hc (hline rfl)
  | lineComment hslash hnext => exact .lineComment hslash hnext
  | blockComment hslash hnext hinner => exact .blockComment hslash hnext hinner
  | string hquote hwhole => exact .string hquote hwhole
  | marked hopens hwhole => exact .marked hopens hwhole
  | character hquote hlength => exact .character hquote hlength
  | number hdigit => exact .number hdigit
  | identifier hdigit hword => exact .identifier hdigit hword
  | doubleColon hcolon hnext => exact .doubleColon hcolon hnext
  | punctuation halone => exact .punctuation { halone with noLine := fun h => hhash (h.1 ▸ rfl) }

theorem Takes.at (h : Takes lineStart kind lexeme rest) (hline : kind = .preprocessor → lineStart' = true)
    (hhash : kind ≠ .punctuation '#') : Takes lineStart' kind lexeme rest := by
  obtain ⟨c, tail, rfl, hblank, hhead⟩ := h
  exact ⟨c, tail, rfl, hblank, head_eq_ok_iff.mpr ((head_eq_ok_iff.mp hhead).at hline hhash)⟩

theorem head_semicolon (lineStart : Bool) (text : Text) :
    head lineStart ';' text = .ok (.punctuation ';', 0) :=
  (Alone.of_not_mem (by decide) (by decide)).head_eq

theorem Takes.lexeme_eq {mark : Char} (h : Takes lineStart (.punctuation mark) lexeme rest) :
    lexeme = [mark] := by
  obtain ⟨c, tail, rfl, _, hhead⟩ := h
  generalize hlength : tail.length = length at hhead
  cases head_eq_ok_iff.mp hhead with
  | punctuation => rw [List.eq_nil_of_length_eq_zero hlength]

theorem identifierLength_of_all {tail : Text} (hall : ∀ d ∈ tail, isIdentifierChar d = true)
    (hrest : rest.head?.any isIdentifierChar = false) :
    identifierLength (tail ++ rest) = tail.length := by
  rw [identifierLength, List.takeWhile_append_of_pos hall]
  cases rest with
  | nil => simp
  | cons d rest =>
      have hd : isIdentifierChar d = false := by simpa using hrest
      simp [hd]

theorem commentLength?_cons (h : (c == '*' && text.head? == some '/') = false) :
    commentLength? (c :: text) = (commentLength? text).map (· + 1) := by
  rw [commentLength?.eq_3]
  rintro text rfl rfl
  cases h

theorem head_eq_blockComment_iff {length : Nat} :
    head lineStart c text = .ok (.blockComment, length) ↔
      c = '/' ∧ text.head? = some '*' ∧
        ∃ inner, commentLength? (text.drop 1) = some inner ∧ length = 1 + inner := by
  rw [head_eq_ok_iff]
  constructor
  · intro h
    cases h with
    | blockComment hslash hnext hinner => exact ⟨hslash, hnext, _, hinner, rfl⟩
  · rintro ⟨hslash, hnext, inner, hinner, rfl⟩
    exact .blockComment hslash hnext hinner

theorem Takes.of_isClosed (h : Takes lineStart kind lexeme rest) (hkind : kind.isClosed = true)
    (rest' : Text) : Takes lineStart kind lexeme rest' := by
  cases kind with
  | blockComment =>
      obtain ⟨c, tail, rfl, hblank, hhead⟩ := h
      obtain ⟨hslash, hstar, inner, hinner, hlength⟩ := head_eq_blockComment_iff.mp hhead
      have hlong : 1 ≤ tail.length := by omega
      refine ⟨c, tail, rfl, hblank, head_eq_blockComment_iff.mpr ⟨hslash, ?_, inner, ?_, hlength⟩⟩
      · cases tail with
        | nil => cases hlong
        | cons d tail => exact hstar
      · rw [List.drop_append_of_le_length hlong] at hinner ⊢
        exact commentLength?_append hinner (by rw [List.length_drop]; omega)
  | punctuation mark =>
      obtain rfl : mark = ';' := by simpa [TokenKind.isClosed] using hkind
      obtain rfl := h.lexeme_eq
      exact ⟨';', [], rfl, by decide, head_semicolon lineStart _⟩
  | _ => cases hkind

theorem alike_of_isAlphanum {c d : Char} (hc : c.isAlphanum = true) (hd : d.isAlphanum = true)
    (rest rest' : Text) : Alike (c :: rest) (d :: rest') := by
  have hne : ∀ c : Char, c.isAlphanum = true → c ≠ '\n' ∧ c ≠ '\r' := by
    rintro c hc
    constructor <;> rintro rfl <;> exact absurd hc (by decide)
  refine ⟨?_, ?_, ?_⟩
  · rw [sight_of_isAlphanum hc, sight_of_isAlphanum hd]
  · intro h
    exact absurd (by simpa [breaks] using h) (hne c hc).1
  · intro h
    rw [carriage, Bool.and_eq_true, beq_iff_eq] at h
    exact absurd h.1 (hne c hc).2

end Scan

namespace Piece

variable {rest rest' : Text} {lineStart lineStart' : Bool} {pieces : List Piece} {kind : TokenKind}
  {lexeme : Text} {c : Char}

theorem scanned_concat_token :
    Scanned rest lineStart (pieces ++ [.token kind lexeme]) ↔
      Scanned (lexeme ++ rest) lineStart pieces ∧
        Scan.Takes (lineStartAfter lineStart pieces) kind lexeme rest := by
  rw [scanned_append]
  simp [Scanned, Piece.text]

/-- Pieces with a token at their end that ends by itself stand before anything. -/
theorem Scanned.of_isClosed (h : Scanned rest lineStart (pieces ++ [.token kind lexeme]))
    (hkind : kind.isClosed = true) (rest' : Text) :
    Scanned rest' lineStart (pieces ++ [.token kind lexeme]) := by
  rw [scanned_concat_token] at h ⊢
  obtain ⟨hbefore, c, tail, rfl, hblank, hhead⟩ := h
  refine ⟨hbefore.congr ⟨?_, ?_, ?_⟩,
    Scan.Takes.of_isClosed ⟨c, tail, rfl, hblank, hhead⟩ hkind rest'⟩
  · cases kind with
    | blockComment =>
        obtain ⟨rfl, -⟩ := Scan.head_eq_blockComment_iff.mp hhead
        rfl
    | punctuation mark =>
        obtain rfl : mark = ';' := by simpa [TokenKind.isClosed] using hkind
        obtain ⟨rfl, -⟩ := List.cons.inj (Scan.Takes.lexeme_eq ⟨c, tail, rfl, hblank, hhead⟩)
        rfl
    | _ => cases hkind
  · intro hbreaks
    exact hbreaks
  · intro hcarriage
    have hne : (c == '\r') = false := by
      rw [beq_eq_false_iff_ne]
      rintro rfl
      exact absurd hblank (by decide)
    simp [Scan.carriage, hne] at hcarriage

theorem Scanned.of_blank (h : Scanned rest lineStart (pieces ++ [.blank c]))
    (hbreaks : Scan.breaks rest = true → Scan.breaks rest' = true) :
    Scanned rest' lineStart (pieces ++ [.blank c]) := by
  rw [scanned_append] at h ⊢
  obtain ⟨hbefore, hblank, -⟩ := h
  refine ⟨hbefore.congr ⟨?_, ?_, ?_⟩, hblank, trivial⟩
  · have hsight := Scan.sight_of_isBlank hblank
    exact (hsight rest).trans (hsight rest').symm
  · exact fun h => h
  · intro hcarriage
    rw [spell_cons, Piece.text, spell_nil, List.append_nil, List.singleton_append, Scan.carriage,
      Bool.and_eq_true] at hcarriage ⊢
    exact ⟨hcarriage.1, hbreaks hcarriage.2⟩

/-- At the start of a line pieces scan as elsewhere, unless they begin with `#`. -/
theorem Scanned.at_lineStart (h : Scanned rest lineStart pieces)
    (hfirst : ∀ token ∈ (locate 0 pieces).head?, token.kind ≠ .punctuation '#') :
    Scanned rest true pieces := by
  have hplaced : ∀ (offset : Nat) (pieces : List Piece) (lineStart : Bool),
      Scanned rest lineStart pieces →
      (∀ token ∈ (locate offset pieces).head?, token.kind ≠ .punctuation '#') →
        Scanned rest true pieces := by
    intro offset pieces
    induction pieces generalizing offset with
    | nil => exact fun _ _ _ => trivial
    | cons piece pieces ih =>
        intro lineStart h hfirst
        cases piece with
        | blank c => exact ⟨h.1, ih _ _ h.2 hfirst⟩
        | token kind lexeme => exact ⟨h.1.at (fun _ => rfl) (hfirst _ rfl), h.2⟩
  exact hplaced 0 pieces lineStart h hfirst

end Piece

end CSharpTidy
