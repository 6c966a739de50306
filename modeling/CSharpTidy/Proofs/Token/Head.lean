import CSharpTidy.Token.Scan

/-!
# What a text begins with

`Heads` says of each kind of token how it begins and how far it goes. The scanner asks in a fixed order
what its next token is, but no two of these beginnings fit the same text, so the order does not matter.
-/

namespace CSharpTidy

namespace Scan

variable {lineStart : Bool} {c : Char} {text : Text} {kind : TokenKind} {length : Nat}

/-! ## Characters of words -/

theorem isIdentifierChar_of_isAlphanum (h : c.isAlphanum = true) : isIdentifierChar c = true := by
  simp [isIdentifierChar, h]

theorem isDigit_of_not_isIdentifierChar (h : isIdentifierChar c = false) : c.isDigit = false := by
  rw [Bool.eq_false_iff]
  intro hdigit
  rw [isIdentifierChar_of_isAlphanum (by rw [Char.isAlphanum, hdigit, Bool.or_true])] at h
  cases h

theorem ne_of_isIdentifierChar {mark : Char} (h : isIdentifierChar c = true)
    (hmark : isIdentifierChar mark = false) : c ≠ mark := by
  rintro rfl
  rw [h] at hmark
  cases hmark

theorem opensMarkedString_of_ne (hat : c ≠ '@') (hdollar : c ≠ '$') (text : Text) :
    opensMarkedString (c :: text) = false := by
  simp [opensMarkedString, hat, hdollar]

theorem eq_of_opensMarkedString (h : opensMarkedString (c :: text) = true) : c = '@' ∨ c = '$' := by
  rw [← Decidable.not_not (p := c = '@' ∨ c = '$'), not_or]
  rintro ⟨hat, hdollar⟩
  rw [opensMarkedString_of_ne hat hdollar] at h
  cases h

/-- An escaped word does not open a string. -/
theorem opensMarkedString_of_escape (h : text.head?.any isIdentifierChar = true) :
    opensMarkedString ('@' :: text) = false := by
  cases text with
  | nil => rfl
  | cons d text =>
      have hword : isIdentifierChar d = true := by simpa using h
      have hquote := ne_of_isIdentifierChar hword (by decide : isIdentifierChar '"' = false)
      have hdollar := ne_of_isIdentifierChar hword (by decide : isIdentifierChar '$' = false)
      simp [opensMarkedString, hquote, hdollar]

/-! ## Beginnings -/

/-- A mark that stands for itself, since nothing longer begins with it. -/
structure Alone (lineStart : Bool) (c : Char) (text : Text) : Prop where
  noLine : ¬ (c = '#' ∧ lineStart = true)
  noLineComment : ¬ (c = '/' ∧ text.head? = some '/')
  noBlockComment : ¬ (c = '/' ∧ text.head? = some '*')
  noString : c ≠ '"'
  noMarks : opensMarkedString (c :: text) = false
  noCharacter : c ≠ '\''
  noWord : isIdentifierChar c = false
  noEscape : ¬ (c = '@' ∧ text.head?.any isIdentifierChar = true)
  noColon : ¬ (c = ':' ∧ text.head? = some ':')

/-- The kind of the token at the head of `c :: text`, and how many characters of `text` belong to it. -/
inductive Heads (lineStart : Bool) (c : Char) (text : Text) : TokenKind → Nat → Prop
  | preprocessor (hhash : c = '#') (hstart : lineStart = true) :
      Heads lineStart c text .preprocessor (lineLength text)
  | lineComment (hslash : c = '/') (hnext : text.head? = some '/') :
      Heads lineStart c text .lineComment (lineLength text)
  | blockComment {inner : Nat} (hslash : c = '/') (hnext : text.head? = some '*')
      (hinner : commentLength? (text.drop 1) = some inner) :
      Heads lineStart c text .blockComment (1 + inner)
  | string {whole : Nat} (hquote : c = '"') (hwhole : stringLength (c :: text) = .ok whole) :
      Heads lineStart c text .string (whole - 1)
  | marked {whole : Nat} (hopens : opensMarkedString (c :: text) = true)
      (hwhole : markedStringLength (c :: text) = .ok whole) :
      Heads lineStart c text .string (whole - 1)
  | character {length : Nat} (hquote : c = '\'') (hlength : quotedLength? '\'' text = some length) :
      Heads lineStart c text .character length
  | number (hdigit : c.isDigit = true) : Heads lineStart c text .number (numberLength text)
  | identifier (hdigit : c.isDigit = false)
      (hword : isIdentifierChar c = true ∨ c = '@' ∧ text.head?.any isIdentifierChar = true) :
      Heads lineStart c text .identifier (identifierLength text)
  | doubleColon (hcolon : c = ':') (hnext : text.head? = some ':') :
      Heads lineStart c text .doubleColon 1
  | punctuation (halone : Alone lineStart c text) : Heads lineStart c text (.punctuation c) 0

theorem heads_of_head (h : head lineStart c text = .ok (kind, length)) :
    Heads lineStart c text kind length := by
  unfold head at h
  split at h
  · next hopens =>
      cases h
      obtain ⟨hhash, hstart⟩ : c = '#' ∧ lineStart = true := by simpa using hopens
      exact .preprocessor hhash hstart
  next hline =>
  split at h
  · next hopens =>
      cases h
      obtain ⟨hslash, hnext⟩ : c = '/' ∧ text.head? = some '/' := by simpa using hopens
      exact .lineComment hslash hnext
  next hlineComment =>
  split at h
  · next hopens =>
      obtain ⟨hslash, hnext⟩ : c = '/' ∧ text.head? = some '*' := by simpa using hopens
      split at h
      · next hinner =>
          cases h
          exact .blockComment hslash hnext hinner
      · cases h
  next hblockComment =>
  split at h
  · next hquote =>
      split at h
      · next hwhole =>
          cases h
          exact .string (by simpa using hquote) hwhole
      · cases h
  next hstring =>
  split at h
  · next hopens =>
      split at h
      · next hwhole =>
          cases h
          exact .marked hopens hwhole
      · cases h
  next hmarks =>
  split at h
  · next hquote =>
      split at h
      · next hlength =>
          cases h
          exact .character (by simpa using hquote) hlength
      · cases h
  next hcharacter =>
  split at h
  · next hdigit =>
      cases h
      exact .number hdigit
  next hdigit =>
  split at h
  · next hword =>
      cases h
      exact .identifier (by simpa using hdigit) (by simpa using hword)
  next hword =>
  rw [Bool.or_eq_true, not_or] at hword
  split at h
  · next hcolon =>
      cases h
      obtain ⟨hcolon, hnext⟩ : c = ':' ∧ text.head? = some ':' := by simpa using hcolon
      exact .doubleColon hcolon hnext
  next hcolon =>
  cases h
  exact .punctuation
    { noLine := by simpa using hline
      noLineComment := by simpa using hlineComment
      noBlockComment := by simpa using hblockComment
      noString := by simpa using hstring
      noMarks := by simpa using hmarks
      noCharacter := by simpa using hcharacter
      noWord := by simpa using hword.1
      noEscape := by simpa using hword.2
      noColon := by simpa using hcolon }

theorem head_of_word (h : isIdentifierChar c = true) (lineStart : Bool) (text : Text) :
    head lineStart c text =
      .ok (if c.isDigit then (.number, numberLength text) else (.identifier, identifierLength text)) := by
  have hne : ∀ mark : Char, isIdentifierChar mark = false → (c == mark) = false :=
    fun mark hmark => beq_eq_false_iff_ne.mpr (ne_of_isIdentifierChar h hmark)
  have hmarks : opensMarkedString (c :: text) = false :=
    opensMarkedString_of_ne (ne_of_isIdentifierChar h (by decide))
      (ne_of_isIdentifierChar h (by decide)) text
  simp only [head, hne '#' (by decide), hne '/' (by decide), hne '"' (by decide), hmarks,
    hne '\'' (by decide), h, Bool.false_and, Bool.true_or, Bool.false_eq_true, if_false, if_true]
  split <;> rfl

theorem Alone.head_eq (h : Alone lineStart c text) :
    head lineStart c text = .ok (.punctuation c, 0) := by
  have hline : (c == '#' && lineStart) = false := by simpa using h.noLine
  have hlineComment : (c == '/' && text.head? == some '/') = false := by simpa using h.noLineComment
  have hblockComment : (c == '/' && text.head? == some '*') = false := by
    simpa using h.noBlockComment
  have hescape : (c == '@' && text.head?.any isIdentifierChar) = false := by simpa using h.noEscape
  have hcolon : (c == ':' && text.head? == some ':') = false := by simpa using h.noColon
  simp only [head, hline, hlineComment, hblockComment, beq_eq_false_iff_ne.mpr h.noString, h.noMarks,
    beq_eq_false_iff_ne.mpr h.noCharacter, isDigit_of_not_isIdentifierChar h.noWord, h.noWord, hescape,
    hcolon, Bool.or_self, Bool.false_eq_true, if_false]

theorem head_eq_ok_iff : head lineStart c text = .ok (kind, length) ↔
    Heads lineStart c text kind length := by
  refine ⟨heads_of_head, fun h => ?_⟩
  cases h with
  | preprocessor hhash hstart =>
      subst hhash hstart
      rfl
  | lineComment hslash hnext =>
      subst hslash
      simp [head, hnext]
  | blockComment hslash hnext hinner =>
      subst hslash
      unfold head
      rw [if_neg (by simp), if_neg (by simp [hnext]), if_pos (by simp [hnext])]
      simp only [hinner]
  | string hquote hwhole =>
      subst hquote
      simp [head, hwhole]
  | marked hopens hwhole =>
      rcases eq_of_opensMarkedString hopens with rfl | rfl <;> simp [head, hopens, hwhole]
  | character hquote hlength =>
      subst hquote
      have hmarks : opensMarkedString ('\'' :: text) = false :=
        opensMarkedString_of_ne (by decide) (by decide) text
      simp [head, hmarks, hlength]
  | number hdigit =>
      -- digits are characters of words, too, and the scanner looks for digits first
      have hword := isIdentifierChar_of_isAlphanum (c := c)
        (by rw [Char.isAlphanum, hdigit, Bool.or_true])
      rw [head_of_word hword, if_pos hdigit]
  | identifier hdigit hword =>
      rcases hword with hword | ⟨rfl, hnext⟩
      · rw [head_of_word hword, if_neg (by simp [hdigit])]
      · simp [head, opensMarkedString_of_escape hnext, hnext]
  | doubleColon hcolon hnext =>
      subst hcolon
      have hmarks : opensMarkedString (':' :: text) = false :=
        opensMarkedString_of_ne (by decide) (by decide) text
      have hword : isIdentifierChar ':' = false := by decide
      simp [head, hmarks, hword, hnext]
  | punctuation halone => exact halone.head_eq

/-- The characters that something longer may begin with, other than words. -/
def openers : List Char := ['#', '/', '"', '@', '$', '\'', ':']

/-- A mark that opens nothing stands for itself wherever it is. -/
theorem Alone.of_not_mem (hopeners : c ∉ openers) (hword : isIdentifierChar c = false) :
    Alone lineStart c text := by
  have hne : ∀ mark ∈ openers, c ≠ mark := fun mark hmem heq => hopeners (heq ▸ hmem)
  exact
    { noLine := fun h => hne '#' (by decide) h.1
      noLineComment := fun h => hne '/' (by decide) h.1
      noBlockComment := fun h => hne '/' (by decide) h.1
      noString := hne '"' (by decide)
      noMarks := opensMarkedString_of_ne (hne '@' (by decide)) (hne '$' (by decide)) text
      noCharacter := hne '\'' (by decide)
      noWord := hword
      noEscape := fun h => hne '@' (by decide) h.1
      noColon := fun h => hne ':' (by decide) h.1 }

end Scan

end CSharpTidy
