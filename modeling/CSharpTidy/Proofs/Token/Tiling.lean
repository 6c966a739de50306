import CSharpTidy.Proofs.Order.Between
import CSharpTidy.Proofs.Text.Utf8

/-!
# Tokens tile the text

Every reader of tokens slices the text by their spans and takes what lies between them for blank. The
tokens of a text are parts of it, in order and apart, and a byte that none of them holds is an ASCII
blank or belongs to the byte-order mark in front. Where scanning fails, the error stands in front of a
character.
-/

namespace CSharpTidy

namespace Scan

/-- The bytes that may stand between tokens: space, tab, line feed, carriage return, vertical tab
and form feed. -/
def blankBytes : List UInt8 := [0x20, 0x09, 0x0a, 0x0d, 0x0b, 0x0c]

theorem utf8EncodeChar_blank {c : Char} (h : isBlank c = true) :
    ∃ byte ∈ blankBytes, String.utf8EncodeChar c = [byte] := by
  simp only [isBlank, Bool.or_eq_true, beq_iff_eq] at h
  rcases h with ((((rfl | rfl) | rfl) | rfl) | rfl) | rfl <;> exact ⟨_, by decide, rfl⟩

variable {offset : Nat} {lineStart : Bool} {text : Text} {error : ScanError}

/-- Scanning stops in front of a character. -/
theorem exists_cut_of_error (h : tokens offset lineStart text = .error error) :
    ∃ (before : Text) (c : Char) (rest : Text),
      text = before ++ c :: rest ∧ error.offset = offset + before.size := by
  fun_induction tokens offset lineStart text with
  | case1 => cases h
  | case2 offset lineStart c text hblank ih =>
      obtain ⟨before, found, rest, rfl, hoffset⟩ := ih h
      exact ⟨c :: before, found, rest, rfl, by rw [hoffset, Text.size_cons, Nat.add_assoc]⟩
  | case3 offset lineStart c text hblank fault hhead =>
      cases h
      exact ⟨[], c, text, rfl, rfl⟩
  | case4 offset lineStart c text hblank kind length hhead lexeme inner hrest ih =>
      cases h
      obtain ⟨before, found, rest, hcut, hoffset⟩ := ih hrest
      refine ⟨lexeme ++ before, found, rest, ?_, ?_⟩
      · rw [List.append_assoc, ← hcut, List.cons_append, List.take_append_drop]
      · rw [hoffset, Text.size_append, Nat.add_assoc]
  | case5 => cases h

end Scan

/-! ## Pieces -/

namespace Piece

variable {pieces : List Piece} {lineStart : Bool} {rest before : Text} {token : Token} {byte : UInt8}

/-- A token stands in the text where its pieces put it. -/
theorem exists_between_of_mem_locate (h : token ∈ locate before.size pieces) :
    ∃ front back, before ++ spell pieces = front ++ (token.lexeme ++ back) ∧
      token.start = front.size := by
  induction pieces generalizing before with
  | nil => cases h
  | cons piece pieces ih =>
      cases piece with
      | blank c =>
          have hmem : token ∈ locate (before ++ [c]).size pieces := by
            rw [Text.size_append, Text.size_cons, Text.size_nil, Nat.add_zero]
            exact h
          obtain ⟨front, back, heq, hstart⟩ := ih hmem
          refine ⟨front, back, ?_, hstart⟩
          rw [← heq, spell_cons, text, List.append_assoc]
      | token kind lexeme =>
          rcases List.mem_cons.mp h with rfl | hmem
          · exact ⟨before, spell pieces, rfl, rfl⟩
          · rw [← Text.size_append] at hmem
            obtain ⟨front, back, heq, hstart⟩ := ih hmem
            refine ⟨front, back, ?_, hstart⟩
            rw [← heq, spell_cons, text, List.append_assoc]

/-- A byte that no token holds is a blank. -/
theorem mem_blankBytes_of_outside (h : Scanned rest lineStart pieces) {offset i : Nat}
    (hbyte : (Text.toUtf8 (spell pieces))[i]? = some byte)
    (houtside : ∀ token ∈ locate offset pieces, token.span.contains (offset + i) = false) :
    byte ∈ Scan.blankBytes := by
  induction pieces generalizing lineStart offset i with
  | nil => rw [spell_nil, Text.toUtf8_nil, List.getElem?_nil] at hbyte; cases hbyte
  | cons piece pieces ih =>
      rw [spell_cons, Text.toUtf8_append] at hbyte
      cases piece with
      | blank c =>
          obtain ⟨found, hfound, hencode⟩ := Scan.utf8EncodeChar_blank h.1
          have hone : c.utf8Size = 1 := by rw [← String.length_utf8EncodeChar, hencode]; rfl
          rw [text, Text.toUtf8_cons, Text.toUtf8_nil, List.append_nil, hencode] at hbyte
          cases i with
          | zero => exact Option.some.inj hbyte ▸ hfound
          | succ i =>
              have hinner : ∀ token ∈ locate (offset + c.utf8Size) pieces,
                  token.span.contains (offset + c.utf8Size + i) = false := fun token hmem => by
                rw [hone, Nat.add_assoc, Nat.add_comm 1 i]
                exact houtside token hmem
              exact ih h.2 hbyte hinner
      | token kind lexeme =>
          have hfirst := houtside ⟨kind, lexeme, offset⟩ List.mem_cons_self
          have hle : lexeme.size ≤ i := by
            simpa [Span.contains, Token.span, Token.stop] using hfirst
          rw [text, List.getElem?_append_right (by rw [Text.length_toUtf8]; exact hle),
            Text.length_toUtf8] at hbyte
          have hinner : ∀ token ∈ locate (offset + lexeme.size) pieces,
              token.span.contains (offset + lexeme.size + (i - lexeme.size)) = false := by
            rw [Nat.add_assoc, Nat.add_sub_cancel' hle]
            exact fun token hmem => houtside token (List.mem_cons_of_mem _ hmem)
          exact ih h.2 hbyte hinner

end Piece

/-! ## Tokens -/

/-- Tokens are parts of a text, in order and apart, with nothing but blanks between them. -/
structure Token.Tile (text : Text) (tokens : List Token) : Prop where
  nonempty : ∀ token ∈ tokens, token.start < token.stop
  inside : ∀ token ∈ tokens, token.stop ≤ text.size
  boundary : ∀ token ∈ tokens,
    text.isBoundary token.start = true ∧ text.isBoundary token.stop = true
  slice : ∀ token ∈ tokens, token.span.slice text = token.lexeme
  ordered : tokens.Pairwise fun first second => first.stop ≤ second.start
  outside : ∀ offset byte, text.toUtf8[offset]? = some byte →
    (∀ token ∈ tokens, token.span.contains offset = false) →
      byte ∈ Scan.blankBytes ∨
        text.head? = some byteOrderMark ∧ offset < byteOrderMark.utf8Size

theorem Piece.Cut.tile {text mark : Text} {pieces : List Piece} (h : Cut text mark pieces) :
    Token.Tile text (locate mark.size pieces) := by
  obtain ⟨hbounds, hordered⟩ := ordered_locate h.scanned mark.size
  have hsize : mark.size + width pieces = text.size := by rw [h.eq, Text.size_append]; rfl
  have hplace : ∀ token ∈ locate mark.size pieces, ∃ front back,
      text = front ++ (token.lexeme ++ back) ∧ token.start = front.size := fun token hmem => by
    rw [h.eq]
    exact exists_between_of_mem_locate hmem
  refine ⟨fun token hmem => (hbounds token hmem).2.1, fun token hmem => ?_, fun token hmem => ?_,
    fun token hmem => ?_, hordered, fun offset byte hbyte houtside => ?_⟩
  · rw [← hsize]
    exact (hbounds token hmem).2.2
  · obtain ⟨front, back, rfl, hstart⟩ := hplace token hmem
    have hstop : token.stop = (front ++ token.lexeme).size := by
      rw [Token.stop, hstart, Text.size_append]
    refine ⟨hstart ▸ Text.isBoundary_append front _, ?_⟩
    rw [hstop, ← List.append_assoc]
    exact Text.isBoundary_append _ back
  · obtain ⟨front, back, rfl, hstart⟩ := hplace token hmem
    rw [Span.slice, Token.span, Token.stop, hstart]
    exact Text.slice_append front token.lexeme back
  · rw [h.eq, Text.toUtf8_append] at hbyte
    rcases Nat.lt_or_ge offset mark.size with hlt | hge
    · rcases h.opens with rfl | ⟨rfl, -⟩
      · right
        rw [h.eq]
        exact ⟨rfl, hlt⟩
      · exact absurd hlt (Nat.not_lt_zero offset)
    · left
      rw [List.getElem?_append_right (by rw [Text.length_toUtf8]; exact hge),
        Text.length_toUtf8] at hbyte
      rw [← Nat.add_sub_cancel' hge] at houtside
      exact mem_blankBytes_of_outside h.scanned hbyte houtside

theorem exists_cut_of_tokenize_error {text : Text} {error : ScanError}
    (h : tokenize text = .error error) :
    ∃ (before : Text) (c : Char) (rest : Text),
      text = before ++ c :: rest ∧ error.offset = before.size := by
  cases text with
  | nil => cases h
  | cons c rest =>
      rw [tokenize] at h
      split at h
      · obtain ⟨before, found, after, rfl, hoffset⟩ := Scan.exists_cut_of_error h
        exact ⟨c :: before, found, after, rfl, hoffset⟩
      · obtain ⟨before, found, after, heq, hoffset⟩ := Scan.exists_cut_of_error h
        exact ⟨before, found, after, heq, by rw [hoffset, Nat.zero_add]⟩

/-- **Scanning tiles the text.** Every text scans, with tokens that are non-empty parts of it between
character boundaries, in order and apart, and with only ASCII blanks and one leading byte-order mark
outside them, or fails at a character boundary before its end. -/
theorem tokenize_tiles (text : Text) :
    match tokenize text with
    | .ok tokens => Token.Tile text tokens
    | .error error => error.offset < text.size ∧ text.isBoundary error.offset = true := by
  cases h : tokenize text with
  | ok tokens =>
      obtain ⟨mark, pieces, hcut, rfl⟩ := exists_cut_of_tokenize h
      exact hcut.tile
  | error error =>
      obtain ⟨before, c, rest, rfl, hoffset⟩ := exists_cut_of_tokenize_error h
      refine ⟨?_, hoffset ▸ Text.isBoundary_append before _⟩
      have hpos := c.utf8Size_pos
      rw [hoffset, Text.size_append, Text.size_cons]
      omega

end CSharpTidy
