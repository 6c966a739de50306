import CSharpTidy.Proofs.Token.Head
import CSharpTidy.Proofs.Text.Offset

/-!
# A scanned text as pieces

The scanner drops the characters between tokens and gives every token an offset. Proofs that change a
text keep everything and no offsets: a text that scans is spelled by pieces, each a blank or a token,
and `Scanned` says of each token that the scanner takes it from what then follows. Tokens with their
offsets come back by `locate`.
-/

namespace CSharpTidy

namespace Scan

theorem lineLength_le (text : Text) : lineLength text ≤ text.length := by
  have := (List.takeWhile_sublist (· ≠ '\n') (l := text)).length_le
  unfold lineLength
  simp only
  split <;> omega

theorem commentLength?_le {text : Text} {length : Nat} (h : commentLength? text = some length) :
    length ≤ text.length := by
  fun_induction commentLength? text generalizing length with
  | case1 => cases h
  | case2 => cases h; simp
  | case3 c text _ ih =>
      obtain ⟨inner, hinner, rfl⟩ := Option.map_eq_some_iff.mp h
      have := ih hinner
      simp only [List.length_cons]
      omega

theorem quotedLength?_le {quote : Char} {text : Text} {length : Nat}
    (h : quotedLength? quote text = some length) : length ≤ text.length := by
  fun_induction quotedLength? quote text generalizing length with
  | case1 => cases h
  | case2 => cases h
  | case3 c text ih =>
      obtain ⟨inner, hinner, rfl⟩ := Option.map_eq_some_iff.mp h
      have := ih hinner
      simp only [List.length_cons]
      omega
  | case4 => cases h; simp
  | case5 => cases h
  | case6 c text _ _ _ _ ih =>
      obtain ⟨inner, hinner, rfl⟩ := Option.map_eq_some_iff.mp h
      have := ih hinner
      simp only [List.length_cons]
      omega

theorem verbatimLength?_le {text : Text} {length : Nat} (h : verbatimLength? text = some length) :
    length ≤ text.length := by
  fun_induction verbatimLength? text generalizing length with
  | case1 => cases h
  | case2 text ih =>
      obtain ⟨inner, hinner, rfl⟩ := Option.map_eq_some_iff.mp h
      have := ih hinner
      simp only [List.length_cons]
      omega
  | case3 => cases h; simp
  | case4 c text _ _ ih =>
      obtain ⟨inner, hinner, rfl⟩ := Option.map_eq_some_iff.mp h
      have := ih hinner
      simp only [List.length_cons]
      omega

theorem quoteRun_le (text : Text) : quoteRun text ≤ text.length :=
  (List.takeWhile_sublist _).length_le

theorem fencedLength?_le {fence : Nat} {text : Text} {length : Nat}
    (h : fencedLength? fence text = some length) : length ≤ text.length := by
  induction text generalizing length with
  | nil => cases h
  | cons c text ih =>
      rw [fencedLength?] at h
      split at h
      · cases h
        exact quoteRun_le _
      · obtain ⟨inner, hinner, rfl⟩ := Option.map_eq_some_iff.mp h
        have := ih hinner
        simp only [List.length_cons]
        omega

theorem stringLength_le {text : Text} {length : Nat} (h : stringLength text = .ok length)
    (hne : text ≠ []) : 1 ≤ length ∧ length ≤ text.length := by
  have hpos := List.length_pos_iff.mpr hne
  have hrun := quoteRun_le text
  unfold stringLength at h
  simp only at h
  split at h
  · split at h
    · next hfenced =>
        cases h
        have := fencedLength?_le hfenced
        simp only [List.length_drop] at this
        omega
    · cases h
  · split at h
    · next hquoted =>
        cases h
        have := quotedLength?_le hquoted
        simp only [List.length_drop] at this
        omega
    · cases h

/-- The characters before the quote of a verbatim or interpolated string. -/
def isMark (c : Char) : Bool := c == '@' || c == '$'

theorem exists_marks_of_opens {text : Text} (h : opensMarkedString text = true) :
    ∃ marks rest, marks ≠ [] ∧ marks.all isMark ∧ text = marks ++ '"' :: rest := by
  fun_cases opensMarkedString text with
  | case1 rest => exact ⟨['@'], rest, by simp, rfl, rfl⟩
  | case2 rest => exact ⟨['@', '$'], rest, by simp, rfl, rfl⟩
  | case3 rest => exact ⟨['$', '@'], rest, by simp, rfl, rfl⟩
  | case4 text _ =>
      rw [opensMarkedString.eq_4 _ ‹_›, beq_iff_eq] at h
      obtain ⟨rest, hrest⟩ := List.head?_eq_some_iff.mp h
      refine ⟨'$' :: text.takeWhile (· == '$'), rest, by simp, ?_, ?_⟩
      · rw [List.all_cons, Bool.and_eq_true]
        refine ⟨rfl, List.all_eq_true.mpr fun c hc => ?_⟩
        have hdollar := List.all_eq_true.mp (List.all_takeWhile (p := (· == '$')) (l := text)) c hc
        simp only [isMark, hdollar, Bool.or_true]
      · rw [List.cons_append, ← hrest, List.takeWhile_append_dropWhile]
  | case5 => simp [opensMarkedString] at h

theorem takeWhile_isMark {marks : Text} (h : marks.all isMark) (rest : Text) :
    (marks ++ '"' :: rest).takeWhile isMark = marks := by
  rw [List.takeWhile_append_of_pos (List.all_eq_true.mp h)]
  simp [isMark]

theorem markedStringLength_eq (text : Text) :
    markedStringLength text =
      let marks := text.takeWhile isMark
      let rest := text.drop marks.length
      if marks.contains '@' then
        match verbatimLength? (rest.drop 1) with
        | some length => .ok (marks.length + 1 + length)
        | none => .error .verbatimString
      else
        match stringLength rest with
        | .ok length => .ok (marks.length + length)
        | .error fault => .error fault := rfl

theorem markedStringLength_le {text : Text} {length : Nat}
    (h : markedStringLength text = .ok length) (hopens : opensMarkedString text = true) :
    1 ≤ length ∧ length ≤ text.length := by
  obtain ⟨marks, rest, hne, hmarks, rfl⟩ := exists_marks_of_opens hopens
  have hpos := List.length_pos_iff.mpr hne
  rw [markedStringLength_eq, takeWhile_isMark hmarks] at h
  simp only [List.drop_left, List.drop_succ_cons, List.drop_zero] at h
  simp only [List.length_append, List.length_cons]
  split at h
  · split at h
    · next hverbatim =>
        cases h
        have := verbatimLength?_le hverbatim
        omega
    · cases h
  · split at h
    · next hstring =>
        cases h
        have := stringLength_le hstring (List.cons_ne_nil _ _)
        simp only [List.length_cons] at this
        omega
    · cases h

theorem numberLength_le (text : Text) : numberLength text ≤ text.length := by
  fun_induction numberLength text with
  | case1 => simp
  | case2 => simp
  | case3 c text _ _ ih => simp only [List.length_cons]; omega
  | case4 => simp

theorem identifierLength_le (text : Text) : identifierLength text ≤ text.length :=
  (List.takeWhile_sublist _).length_le

theorem head_length_le {lineStart : Bool} {c : Char} {text : Text} {kind : TokenKind} {length : Nat}
    (h : head lineStart c text = .ok (kind, length)) : length ≤ text.length := by
  have hnext : ∀ d, text.head? = some d → 1 ≤ text.length := by
    intro d hd
    cases text with
    | nil => cases hd
    | cons => exact Nat.le_add_left 1 _
  cases head_eq_ok_iff.mp h with
  | preprocessor => exact lineLength_le text
  | lineComment => exact lineLength_le text
  | blockComment _ hstar hinner =>
      have hbound := commentLength?_le hinner
      have hpos := hnext '*' hstar
      rw [List.length_drop] at hbound
      omega
  | string _ hwhole =>
      have hbounds := stringLength_le hwhole (List.cons_ne_nil _ _)
      rw [List.length_cons] at hbounds
      omega
  | marked hopens hwhole =>
      have hbounds := markedStringLength_le hwhole hopens
      rw [List.length_cons] at hbounds
      omega
  | character _ hlength => exact quotedLength?_le hlength
  | number => exact numberLength_le text
  | identifier => exact identifierLength_le text
  | doubleColon _ hcolon => exact hnext ':' hcolon
  | punctuation => exact Nat.zero_le _

/-- The scanner takes a lexeme, as a token of some kind, from the front of what follows. -/
def Takes (lineStart : Bool) (kind : TokenKind) (lexeme rest : Text) : Prop :=
  ∃ c tail, lexeme = c :: tail ∧ isBlank c = false ∧
    head lineStart c (tail ++ rest) = .ok (kind, tail.length)

end Scan

/-- A character between tokens, or a token without its place. -/
inductive Piece where
  | blank (c : Char)
  | token (kind : TokenKind) (lexeme : Text)
deriving DecidableEq, Repr

namespace Piece

def text : Piece → Text
  | blank c => [c]
  | token _ lexeme => lexeme

def spell (pieces : List Piece) : Text := pieces.flatMap text

/-- The tokens among pieces that begin at an offset. -/
def locate (offset : Nat) : List Piece → List Token
  | [] => []
  | blank c :: pieces => locate (offset + c.utf8Size) pieces
  | token kind lexeme :: pieces =>
      ⟨kind, lexeme, offset⟩ :: locate (offset + Text.size lexeme) pieces

/-- Whether a line starts behind pieces, apart from blanks. -/
def lineStartAfter : Bool → List Piece → Bool
  | lineStart, [] => lineStart
  | lineStart, blank c :: pieces => lineStartAfter (lineStart || c == '\n') pieces
  | _, token _ _ :: pieces => lineStartAfter false pieces

/-- The scanner cuts the text that pieces spell into these pieces where `rest` follows. -/
def Scanned (rest : Text) : Bool → List Piece → Prop
  | _, [] => True
  | lineStart, blank c :: pieces =>
      Scan.isBlank c = true ∧ Scanned rest (lineStart || c == '\n') pieces
  | lineStart, token kind lexeme :: pieces =>
      Scan.Takes lineStart kind lexeme (spell pieces ++ rest) ∧ Scanned rest false pieces

@[simp] theorem spell_nil : spell [] = [] := rfl

@[simp] theorem spell_cons (piece : Piece) (pieces : List Piece) :
    spell (piece :: pieces) = piece.text ++ spell pieces := rfl

@[simp] theorem spell_append (first second : List Piece) :
    spell (first ++ second) = spell first ++ spell second := by
  simp [spell]

theorem scanned_append {rest : Text} {lineStart : Bool} {first second : List Piece} :
    Scanned rest lineStart (first ++ second) ↔
      Scanned (spell second ++ rest) lineStart first ∧
        Scanned rest (lineStartAfter lineStart first) second := by
  induction first generalizing lineStart with
  | nil => simp [Scanned, lineStartAfter]
  | cons piece first ih =>
      cases piece <;> simp [Scanned, lineStartAfter, ih, and_assoc]

theorem locate_append (offset : Nat) (first second : List Piece) :
    locate offset (first ++ second) =
      locate offset first ++ locate (offset + (spell first).size) second := by
  induction first generalizing offset with
  | nil => rfl
  | cons piece first ih =>
      cases piece <;>
        simp [locate, ih, text, Nat.add_assoc]

end Piece

namespace Scan

/-- What scans is spelled by pieces. -/
theorem exists_pieces {offset : Nat} {lineStart : Bool} {text : Text} {found : List Token}
    (h : tokens offset lineStart text = .ok found) :
    ∃ pieces, Piece.spell pieces = text ∧ Piece.Scanned [] lineStart pieces ∧
      Piece.locate offset pieces = found := by
  fun_induction tokens offset lineStart text generalizing found with
  | case1 => cases h; exact ⟨[], rfl, trivial, rfl⟩
  | case2 offset lineStart c text hblank ih =>
      obtain ⟨pieces, rfl, hscanned, rfl⟩ := ih h
      exact ⟨.blank c :: pieces, rfl, ⟨hblank, hscanned⟩, rfl⟩
  | case3 => cases h
  | case4 => cases h
  | case5 offset lineStart c text hblank kind length hhead lexeme rest hrest =>
      rename_i ih
      cases h
      obtain ⟨pieces, hspell, hscanned, rfl⟩ := ih hrest
      have hlength : (text.take length).length = length :=
        List.length_take_of_le (head_length_le hhead)
      refine ⟨.token kind lexeme :: pieces, ?_, ⟨⟨c, text.take length, rfl, ?_, ?_⟩, hscanned⟩, rfl⟩
      · simp [lexeme, Piece.text, hspell]
      · simpa using hblank
      · rw [hspell, List.append_nil, List.take_append_drop, hlength, hhead]

theorem tokens_spell {lineStart : Bool} {pieces : List Piece}
    (h : Piece.Scanned [] lineStart pieces) (offset : Nat) :
    tokens offset lineStart (Piece.spell pieces) = .ok (Piece.locate offset pieces) := by
  induction pieces generalizing lineStart offset with
  | nil => rw [Piece.spell_nil, tokens]; rfl
  | cons piece pieces ih =>
      cases piece with
      | blank c =>
          rw [Piece.spell_cons, Piece.text, List.singleton_append, tokens, if_pos h.1, ih h.2]
          rfl
      | token kind lexeme =>
          obtain ⟨⟨c, tail, rfl, hblank, hhead⟩, hscanned⟩ := h
          rw [List.append_nil] at hhead
          rw [Piece.spell_cons, Piece.text, List.cons_append, tokens, if_neg (by simp [hblank])]
          simp only [hhead, List.take_left, List.drop_left, ih hscanned]
          rfl

end Scan

/-- A text cut into its byte-order mark, if it has one, and its pieces. -/
structure Piece.Cut (text mark : Text) (pieces : List Piece) : Prop where
  eq : text = mark ++ spell pieces
  scanned : Scanned [] true pieces
  opens : mark = [byteOrderMark] ∨ mark = [] ∧ text.head? ≠ some byteOrderMark

theorem exists_cut_of_tokenize {text : Text} {found : List Token} (h : tokenize text = .ok found) :
    ∃ mark pieces, Piece.Cut text mark pieces ∧ Piece.locate mark.size pieces = found := by
  cases text with
  | nil =>
      cases h
      exact ⟨[], [], ⟨rfl, trivial, .inr ⟨rfl, by simp⟩⟩, rfl⟩
  | cons c rest =>
      rw [tokenize] at h
      split at h
      · next hmark =>
          obtain ⟨pieces, rfl, hscanned, rfl⟩ := Scan.exists_pieces h
          subst hmark
          exact ⟨[byteOrderMark], pieces, ⟨rfl, hscanned, .inl rfl⟩, rfl⟩
      · next hmark =>
          obtain ⟨pieces, hspell, hscanned, rfl⟩ := Scan.exists_pieces h
          exact ⟨[], pieces, ⟨hspell.symm, hscanned, .inr ⟨rfl, by simpa using hmark⟩⟩, rfl⟩

theorem Piece.Cut.tokenize_eq {text mark : Text} {pieces : List Piece}
    (h : Piece.Cut text mark pieces) : tokenize text = .ok (Piece.locate mark.size pieces) := by
  obtain ⟨rfl, hscanned, rfl | ⟨rfl, hopens⟩⟩ := h
  · rw [List.singleton_append, tokenize, if_pos rfl, Scan.tokens_spell hscanned]
    rfl
  · rw [List.nil_append] at hopens ⊢
    rw [Text.size_nil, ← Scan.tokens_spell hscanned 0]
    generalize Piece.spell pieces = text at *
    cases text with
    | nil => rw [tokenize, Scan.tokens]
    | cons c rest => rw [tokenize, if_neg (by simpa using hopens)]

end CSharpTidy
