import CSharpTidy.Proofs.Format.Keyword

/-!
# Words shown in a text

A text shows words where it spells them in order and nothing but blanks, comments and preprocessor
lines stands around them. However it does so, it scans into these words, comments aside. All that has
to be known of what stands in front is whether it leaves the line open for a preprocessor line and
whether it would run into a word.
-/

namespace CSharpTidy

/-- An identifier of ASCII letters, digits and underscores that does not begin with a digit. -/
structure Identifier where
  text : Text
  opens : (text.head?.any fun c => c.isAlpha || c == '_') = true
  holds : (text.all fun c => c.isAlphanum || c == '_') = true
deriving DecidableEq

/-- The marks of declarations. -/
inductive Mark where
  | dot
  | semicolon
  | equals
  | opening
  | closing
deriving DecidableEq, Repr

def Mark.char : Mark → Char
  | dot => '.'
  | semicolon => ';'
  | equals => '='
  | opening => '\x7b'
  | closing => '\x7d'

/-- What a text shows. Keywords are identifiers. -/
inductive Word where
  | identifier (name : Identifier)
  | mark (sign : Mark)
deriving DecidableEq

namespace Word

def kind : Word → TokenKind
  | identifier _ => .identifier
  | mark sign => .punctuation sign.char

def lexeme : Word → Text
  | identifier name => name.text
  | mark sign => [sign.char]

def isIdentifier : Word → Bool
  | identifier _ => true
  | mark _ => false

theorem isTrivia_kind (word : Word) : word.kind.isTrivia = false := by
  cases word <;> rfl

end Word

/-- A text that shows words, with blanks, comments and preprocessor lines wherever they may stand.
`lineStart` says that only blanks come in front on the line, and `glued` that an identifier does. -/
inductive Renders : Bool → Bool → List Word → Text → Prop
  | nil {lineStart glued : Bool} : Renders lineStart glued [] []
  | blank {lineStart glued : Bool} {words : List Word} {text : Text} {c : Char}
      (hblank : c ∈ [' ', '\t', '\n', '\r', '\x0b', '\x0c'])
      (h : Renders (lineStart || c == '\n') false words text) :
      Renders lineStart glued words (c :: text)
  | blockComment {lineStart glued : Bool} {words : List Word} {text body : Text}
      (hbody : ¬ ['*', '/'] <:+: body) (h : Renders false false words text) :
      Renders lineStart glued words ('/' :: '*' :: (body ++ '*' :: '/' :: text))
  | lineComment {lineStart glued : Bool} {words : List Word} {text body : Text}
      (hbody : '\n' ∉ body) (hend : ∀ c ∈ text.head?, c = '\n')
      (h : Renders false false words text) :
      Renders lineStart glued words ('/' :: '/' :: (body ++ text))
  | preprocessor {glued : Bool} {words : List Word} {text body : Text}
      (hbody : '\n' ∉ body) (hend : ∀ c ∈ text.head?, c = '\n')
      (h : Renders false false words text) : Renders true glued words ('#' :: (body ++ text))
  | word {lineStart glued : Bool} {words : List Word} {text : Text} {word : Word}
      (hglued : glued = true → word.isIdentifier = false)
      (h : Renders false word.isIdentifier words text) :
      Renders lineStart glued (word :: words) (word.lexeme ++ text)

namespace Scan

variable {c : Char} {body rest tail : Text} {lineStart : Bool} {kind : TokenKind}

theorem commentLength?_body (h : ¬ ['*', '/'] <:+: body) (rest : Text) :
    commentLength? (body ++ '*' :: '/' :: rest) = some (body.length + 2) := by
  induction body with
  | nil => rfl
  | cons c body ih =>
      have hopen : (c == '*' && (body ++ '*' :: '/' :: rest).head? == some '/') = false := by
        rw [Bool.and_eq_false_iff, beq_eq_false_iff_ne, beq_eq_false_iff_ne, ← not_and_or]
        rintro ⟨rfl, hslash⟩
        cases body with
        | nil => cases hslash
        | cons d body =>
            obtain rfl := Option.some.inj hslash
            exact h ⟨[], body, rfl⟩
      have hinner : ¬ ['*', '/'] <:+: body := fun hinfix => h (List.infix_cons hinfix)
      rw [List.cons_append, commentLength?_cons hopen, ih hinner]
      rw [Option.map_some, List.length_cons, Nat.add_right_comm]

theorem not_isDigit_of_isAlpha (h : c.isAlpha = true) : c.isDigit = false := by
  have hletter : (c.isUpper || c.isLower) = true := h
  have hbeyond : ¬ c.val ≤ '9'.val := by
    rw [Bool.or_eq_true] at hletter
    rw [UInt32.not_le]
    rcases hletter with hupper | hlower
    · have hfrom : 'A'.val ≤ c.val := (of_decide_eq_true hupper).1
      exact Nat.lt_of_lt_of_le (by decide : '9'.val.toNat < 'A'.val.toNat) hfrom
    · have hfrom : 'a'.val ≤ c.val := of_decide_eq_true (Bool.and_eq_true_iff.mp hlower).1
      exact Nat.lt_of_lt_of_le (by decide : '9'.val.toNat < 'a'.val.toNat) hfrom
  rw [Char.isDigit, decide_eq_false hbeyond, Bool.and_false]

theorem takes_identifier (name : Identifier) (hrest : rest.head?.any isIdentifierChar = false) :
    Takes lineStart .identifier name.text rest := by
  obtain ⟨text, hopens, hholds⟩ := name
  have hchar : ∀ d ∈ text, isIdentifierChar d = true := fun d hmem => by
    have hd := List.all_eq_true.mp hholds d hmem
    rw [isIdentifierChar, hd, Bool.true_or]
  cases text with
  | nil => cases hopens
  | cons c tail =>
      have hc : c.isAlpha = true ∨ c = '_' := by simpa using hopens
      refine ⟨c, tail, rfl, isBlank_of_isIdentifierChar (hchar c List.mem_cons_self), ?_⟩
      have hlength := identifierLength_of_all
        (fun d hmem => hchar d (List.mem_cons_of_mem c hmem)) hrest
      have hdigit : c.isDigit = false := by
        rcases hc with hletter | rfl
        · exact not_isDigit_of_isAlpha hletter
        · rfl
      rw [head_of_word (hchar c List.mem_cons_self), if_neg (by simp [hdigit]), hlength]

theorem isIdentifierChar_mark (sign : Mark) : isIdentifierChar sign.char = false := by
  cases sign <;> decide

theorem takes_mark (sign : Mark) (rest : Text) :
    Takes lineStart (.punctuation sign.char) [sign.char] rest := by
  have hopeners : sign.char ∉ openers := by cases sign <;> decide
  exact ⟨sign.char, [], rfl, by cases sign <;> decide,
    (Alone.of_not_mem hopeners (isIdentifierChar_mark sign)).head_eq⟩

end Scan

namespace Piece

variable {c : Char} {body rest : Text} {lineStart : Bool} {kind : TokenKind}

/-- The words among pieces, without comments and preprocessor lines. -/
def words (pieces : List Piece) : List (TokenKind × Text) :=
  (tokens pieces).filter fun token => !token.1.isTrivia

/-- A comment or preprocessor line up to the end of its line. A carriage return there is a blank. -/
theorem exists_line_pieces (hkind : kind.isLine = true) (hblank : Scan.isBlank c = false)
    (hopens : Scan.opensLine lineStart kind c (body ++ rest)) (hbody : '\n' ∉ body)
    (hend : ∀ d ∈ rest.head?, d = '\n') :
    ∃ pieces, spell pieces = c :: body ∧ Scanned rest lineStart pieces ∧
      lineStartAfter lineStart pieces = false ∧ words pieces = [] := by
  have htrivia : kind.isTrivia = true := by cases kind <;> first | rfl | cases hkind
  have hbreaks : Scan.breaks rest = true := by
    cases rest with
    | nil => rfl
    | cons d rest => simp [Scan.breaks, hend d rfl]
  by_cases hlast : body.getLast? = some '\r'
  · obtain ⟨content, rfl⟩ := List.getLast?_eq_some_iff.mp hlast
    have hcontent : '\n' ∉ content := fun hmem => hbody (List.mem_append_left _ hmem)
    have htail : content ++ ['\r'] ++ rest = content ++ '\r' :: rest := by simp
    rw [htail] at hopens
    refine ⟨[.token kind (c :: content), .blank '\r'], by simp [text], ⟨⟨c, content, rfl, hblank, ?_⟩,
      by decide, trivial⟩, rfl, ?_⟩
    · refine (Scan.head_eq_line_iff hkind).mpr ⟨hopens, Scan.lineLength_eq_iff.mpr ⟨hcontent, .inr ?_⟩⟩
      exact hbreaks
    · simp [words, tokens, htrivia]
  · refine ⟨[.token kind (c :: body)], by simp [text], ⟨⟨c, body, rfl, hblank, ?_⟩, trivial⟩, rfl, ?_⟩
    · exact (Scan.head_eq_line_iff hkind).mpr
        ⟨hopens, Scan.lineLength_eq_iff.mpr ⟨hbody, .inl ⟨hbreaks, hlast⟩⟩⟩
    · simp [words, tokens, htrivia]

theorem words_append (first second : List Piece) :
    words (first ++ second) = words first ++ words second := by
  rw [words, tokens_append, List.filter_append]
  rfl

theorem map_code (offset : Nat) (pieces : List Piece) :
    (Token.code (locate offset pieces)).map (fun token => (token.kind, token.lexeme)) =
      words pieces := by
  rw [words, ← map_locate offset pieces, List.filter_map]
  rfl

end Piece

namespace Renders

variable {text : Text} {lineStart glued : Bool} {words : List Word}

theorem isBlank_of_mem {c : Char} (h : c ∈ [' ', '\t', '\n', '\r', '\x0b', '\x0c']) :
    Scan.isBlank c = true := by
  simpa [Scan.isBlank, or_assoc] using h

/-- What shows words behind an identifier does not go on with it. -/
theorem not_isIdentifierChar_head? (h : Renders lineStart true words text) :
    text.head?.any Scan.isIdentifierChar = false := by
  cases h with
  | nil => rfl
  | blank hblank _ => exact Scan.isIdentifierChar_of_isBlank (isBlank_of_mem hblank)
  | blockComment _ _ => exact (by decide : Scan.isIdentifierChar '/' = false)
  | lineComment _ _ _ => exact (by decide : Scan.isIdentifierChar '/' = false)
  | preprocessor _ _ _ => exact (by decide : Scan.isIdentifierChar '#' = false)
  | @word _ _ _ _ word hglued _ =>
      cases word with
      | identifier name => cases hglued rfl
      | mark sign => exact Scan.isIdentifierChar_mark sign

theorem head?_ne_byteOrderMark (h : Renders lineStart glued words text) :
    text.head? ≠ some byteOrderMark := by
  intro hhead
  cases h with
  | nil => cases hhead
  | blank hblank _ =>
      obtain rfl := Option.some.inj hhead
      exact absurd (isBlank_of_mem hblank) (by decide)
  | blockComment _ _ => exact absurd (Option.some.inj hhead) (by decide)
  | lineComment _ _ _ => exact absurd (Option.some.inj hhead) (by decide)
  | preprocessor _ _ _ => exact absurd (Option.some.inj hhead) (by decide)
  | @word _ _ _ _ word _ _ =>
      cases word with
      | identifier name =>
          obtain ⟨text, hopens, hholds⟩ := name
          cases text with
          | nil => cases hopens
          | cons c tail =>
              obtain rfl := Option.some.inj hhead
              exact absurd (Bool.and_eq_true_iff.mp hholds).1 (by decide)
      | mark sign => cases sign <;> exact absurd (Option.some.inj hhead) (by decide)

/-- **What shows words scans into them**, comments and preprocessor lines aside. -/
theorem exists_pieces (h : Renders lineStart glued words text) :
    ∃ pieces, Piece.spell pieces = text ∧ Piece.Scanned [] lineStart pieces ∧
      Piece.words pieces = words.map fun word => (word.kind, word.lexeme) := by
  induction h with
  | nil => exact ⟨[], rfl, trivial, rfl⟩
  | @blank _ _ _ _ c hblank _ ih =>
      obtain ⟨pieces, rfl, hscanned, hwords⟩ := ih
      exact ⟨.blank c :: pieces, rfl, ⟨isBlank_of_mem hblank, hscanned⟩, hwords⟩
  | @blockComment _ _ _ _ body hbody _ ih =>
      obtain ⟨pieces, rfl, hscanned, hwords⟩ := ih
      refine ⟨.token .blockComment ('/' :: '*' :: (body ++ ['*', '/'])) :: pieces, by simp [Piece.text],
        ⟨⟨'/', '*' :: (body ++ ['*', '/']), rfl, by decide, ?_⟩, hscanned⟩, hwords⟩
      -- the comment closes at its own mark, since the body has none
      have hlength := Scan.commentLength?_body hbody (Piece.spell pieces ++ [])
      refine Scan.head_eq_blockComment_iff.mpr ⟨rfl, rfl, body.length + 2, ?_, ?_⟩
      · rw [← hlength]
        simp
      · simp only [List.length_cons, List.length_append, List.length_nil]
        omega
  | @lineComment lineStart _ _ _ body hbody hend _ ih =>
      obtain ⟨pieces, rfl, hscanned, hwords⟩ := ih
      have hbody' : '\n' ∉ '/' :: body := by simpa using hbody
      obtain ⟨front, hspell, hfront, hafter, hnone⟩ := Piece.exists_line_pieces
        (by rfl : TokenKind.isLine .lineComment = true) (by decide) (.inr ⟨rfl, rfl, rfl⟩) hbody' hend
      refine ⟨front ++ pieces, by rw [Piece.spell_append, hspell]; rfl, ?_, ?_⟩
      · rw [Piece.scanned_append, List.append_nil, hafter]
        exact ⟨hfront, hscanned⟩
      · rw [Piece.words_append, hnone, hwords, List.nil_append]
  | @preprocessor _ _ _ body hbody hend _ ih =>
      obtain ⟨pieces, rfl, hscanned, hwords⟩ := ih
      obtain ⟨front, hspell, hfront, hafter, hnone⟩ := Piece.exists_line_pieces
        (by rfl : TokenKind.isLine .preprocessor = true) (by decide) (.inl ⟨rfl, rfl, rfl⟩) hbody hend
      refine ⟨front ++ pieces, by rw [Piece.spell_append, hspell]; rfl, ?_, ?_⟩
      · rw [Piece.scanned_append, List.append_nil, hafter]
        exact ⟨hfront, hscanned⟩
      · rw [Piece.words_append, hnone, hwords, List.nil_append]
  | @word _ _ _ _ word _ hrest ih =>
      obtain ⟨pieces, rfl, hscanned, hwords⟩ := ih
      refine ⟨.token word.kind word.lexeme :: pieces, rfl, ⟨?_, hscanned⟩, ?_⟩
      · rw [List.append_nil]
        cases word with
        | identifier name => exact Scan.takes_identifier name hrest.not_isIdentifierChar_head?
        | mark sign => exact Scan.takes_mark sign _
      · rw [List.map_cons, ← hwords, Piece.words, Piece.tokens, List.filter_cons, word.isTrivia_kind]
        rfl

theorem exists_tokens (h : Renders true false words text) :
    ∃ tokens, tokenize text = .ok tokens ∧
      (Token.code tokens).map (fun token => (token.kind, token.lexeme)) =
        words.map fun word => (word.kind, word.lexeme) := by
  obtain ⟨pieces, hspell, hscanned, hwords⟩ := h.exists_pieces
  have hcut : Piece.Cut text [] pieces :=
    ⟨hspell.symm, hscanned, .inr ⟨rfl, h.head?_ne_byteOrderMark⟩⟩
  exact ⟨_, hcut.tokenize_eq, by rw [Piece.map_code, hwords]⟩

end Renders

end CSharpTidy
