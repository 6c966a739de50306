import CSharpTidy.Proofs.Token.Crlf
import CSharpTidy.Proofs.Tree.Frame

/-!
# Reading texts with other line ends

A text that scans does so with carriage returns too, piece by piece, unless a literal of one line goes on
behind its end. The other way round, a text with carriage returns that scans does so without them. Each
token stands where its bytes have moved to, so the two texts are read alike, and directives differ in
their offsets and in the line ends that their names hold.
-/

namespace CSharpTidy

open List (Forall₂)

namespace Scan

variable {c : Char} {text lexeme rest : Text} {lineStart : Bool} {kind : TokenKind} {length offset : Nat}

/-- Tokens of most kinds stay as they are. -/
theorem Heads.not_mem (hc : c ≠ '\n') (h : '\r' ∉ text) (hheads : Heads lineStart c text kind length)
    (hspans : kind.spansLines = false) (hkept : Kept kind (c :: text.take length)) :
    '\n' ∉ c :: text.take length := by
  have hcons : '\n' ∉ text.take length → '\n' ∉ c :: text.take length := fun hrest =>
    List.not_mem_cons_of_ne_of_not_mem hc.symm hrest
  cases hheads with
  | preprocessor =>
      exact hcons (Text.not_mem_take_of_crlfLength (lineLength_crlf h).2 (lineLength_le text))
  | lineComment =>
      exact hcons (Text.not_mem_take_of_crlfLength (lineLength_crlf h).2 (lineLength_le text))
  | blockComment => cases hspans
  | string => cases hspans
  | marked => cases hspans
  | character => exact hkept rfl
  | number =>
      exact hcons (Text.not_mem_take_of_crlfLength (numberLength_crlf text).2 (numberLength_le text))
  | identifier =>
      exact hcons
        (Text.not_mem_take_of_crlfLength (identifierLength_crlf text).2 (identifierLength_le text))
  | doubleColon _ hcolons =>
      obtain ⟨rest, rfl⟩ := List.head?_eq_some_iff.mp hcolons
      exact hcons (by simp)
  | punctuation => exact hcons (by simp)

theorem ne_feed_of_not_isBlank (h : isBlank c = false) : c ≠ '\n' := by
  rintro rfl
  cases h

theorem Takes.not_mem (h : Takes lineStart kind lexeme rest) (hreturn : '\r' ∉ lexeme ++ rest)
    (hspans : kind.spansLines = false) (hkept : Kept kind lexeme) : '\n' ∉ lexeme := by
  obtain ⟨c, tail, rfl, hblank, hhead⟩ := h
  have htail : '\r' ∉ tail ++ rest := fun hmem => hreturn (List.mem_cons_of_mem c hmem)
  have hline := (head_eq_ok_iff.mp hhead).not_mem (ne_feed_of_not_isBlank hblank) htail hspans
  rw [List.take_left] at hline
  exact hline hkept

theorem Takes.crlf (h : Takes lineStart kind lexeme rest) (hreturn : '\r' ∉ lexeme ++ rest)
    (hkept : Kept kind lexeme) : Takes lineStart kind (Text.crlf lexeme) (Text.crlf rest) := by
  obtain ⟨c, tail, rfl, hblank, hhead⟩ := h
  have hc := ne_feed_of_not_isBlank hblank
  rw [List.cons_append] at hreturn
  have hheads := (head_eq_ok_iff.mp hhead).crlf hc hreturn (by rwa [List.take_left])
  rw [Text.crlfLength_append, Text.crlf_append] at hheads
  exact ⟨c, Text.crlf tail, Text.crlf_cons_of_ne hc tail, hblank, head_eq_ok_iff.mpr hheads⟩

end Scan

namespace Piece

variable {c : Char} {text mark rest before : Text} {lineStart : Bool} {kind : TokenKind} {lexeme : Text}
  {pieces : List Piece} {found : List Token} {offset : Nat}

/-- A blank or a token with carriage returns in front of its line feeds. -/
def crlfPiece : Piece → List Piece
  | blank c => (Text.crlfChar c).map blank
  | token kind lexeme => [token kind (Text.crlf lexeme)]

def crlf (pieces : List Piece) : List Piece := pieces.flatMap crlfPiece

@[simp] theorem crlf_nil : crlf [] = [] := rfl

@[simp] theorem crlf_append (first second : List Piece) :
    crlf (first ++ second) = crlf first ++ crlf second := List.flatMap_append

theorem crlf_feed (pieces : List Piece) :
    crlf (.blank '\n' :: pieces) = .blank '\r' :: .blank '\n' :: crlf pieces := rfl

theorem crlf_blank (h : c ≠ '\n') (pieces : List Piece) :
    crlf (.blank c :: pieces) = .blank c :: crlf pieces := by
  rw [crlf, List.flatMap_cons, crlfPiece, Text.crlfChar, if_neg h]
  rfl

theorem crlf_token (kind : TokenKind) (lexeme : Text) (pieces : List Piece) :
    crlf (.token kind lexeme :: pieces) = .token kind (Text.crlf lexeme) :: crlf pieces := rfl

@[simp] theorem spell_crlf (pieces : List Piece) : spell (crlf pieces) = Text.crlf (spell pieces) := by
  induction pieces with
  | nil => rfl
  | cons piece pieces ih =>
      cases piece with
      | blank c =>
          by_cases hc : c = '\n'
          · rw [hc, crlf_feed, spell_cons, spell_cons, ih]
            rfl
          · rw [crlf_blank hc, spell_cons, ih, spell_cons, text, List.singleton_append,
              List.singleton_append, Text.crlf_cons_of_ne hc]
      | token kind lexeme =>
          rw [crlf_token, spell_cons, ih, spell_cons, Text.crlf_append]
          rfl

/-- No token is a literal of one line that goes over its end. -/
def AllKept (pieces : List Piece) : Prop :=
  ∀ kind lexeme, .token kind lexeme ∈ pieces → Scan.Kept kind lexeme

theorem AllKept.tail {piece : Piece} (h : AllKept (piece :: pieces)) : AllKept pieces :=
  fun kind lexeme hmem => h kind lexeme (List.mem_cons_of_mem _ hmem)

theorem Scanned.crlf (h : Scanned rest lineStart pieces) (hreturn : '\r' ∉ spell pieces ++ rest)
    (hkept : AllKept pieces) : Scanned (Text.crlf rest) lineStart (Piece.crlf pieces) := by
  induction pieces generalizing lineStart with
  | nil => trivial
  | cons piece pieces ih =>
      rw [spell_cons, List.append_assoc] at hreturn
      have hrest : '\r' ∉ spell pieces ++ rest := fun hmem => hreturn (List.mem_append_right _ hmem)
      cases piece with
      | blank c =>
          have hnext := ih h.2 hrest hkept.tail
          by_cases hc : c = '\n'
          · subst hc
            rw [crlf_feed]
            exact ⟨rfl, rfl, by simpa using hnext⟩
          · rw [crlf_blank hc]
            exact ⟨h.1, hnext⟩
      | token kind lexeme =>
          have htakes := h.1.crlf hreturn (hkept kind lexeme List.mem_cons_self)
          rw [Text.crlf_append, ← spell_crlf] at htakes
          rw [crlf_token]
          exact ⟨htakes, ih h.2 hrest hkept.tail⟩

theorem Cut.crlf_mark (h : Cut text mark pieces) : Text.crlf mark = mark := by
  rcases h.opens with rfl | ⟨rfl, -⟩ <;> rfl

theorem Cut.not_mem (h : Cut text mark pieces) {c : Char} (hc : c ∉ text) : c ∉ spell pieces := by
  intro hmem
  rw [h.eq] at hc
  exact hc (List.mem_append_right mark hmem)

theorem Cut.crlf (h : Cut text mark pieces) (hreturn : '\r' ∉ text) (hkept : AllKept pieces) :
    Cut (Text.crlf text) mark (Piece.crlf pieces) := by
  have hmark := h.crlf_mark
  have hspell := h.not_mem hreturn
  obtain ⟨rfl, hscanned, hopens⟩ := h
  refine ⟨?_, hscanned.crlf (by rwa [List.append_nil]) hkept, ?_⟩
  · rw [Text.crlf_append, spell_crlf, hmark]
  · refine hopens.imp_right fun ⟨hmark, hhead⟩ => ⟨hmark, ?_⟩
    rwa [Ne, Text.head?_crlf_iff (by decide) (by decide)]

end Piece

/-! ## Texts that came from others -/

namespace Scan

theorem tokens_blank {c : Char} (hblank : isBlank c = true) (offset : Nat) (lineStart : Bool)
    (text : Text) :
    tokens offset lineStart (c :: text) = tokens (offset + c.utf8Size) (lineStart || c == '\n') text := by
  rw [tokens, if_pos hblank]

theorem tokens_crlf_blank {c : Char} (hblank : isBlank c = true) (offset : Nat) (lineStart : Bool)
    (text : Text) :
    tokens offset lineStart (Text.crlf (c :: text)) =
      tokens (offset + Text.size (Text.crlfChar c)) (lineStart || c == '\n') (Text.crlf text) := by
  by_cases hc : c = '\n'
  · have hreturn : (lineStart || '\r' == '\n' || '\n' == '\n') = (lineStart || '\n' == '\n') := by
      cases lineStart <;> rfl
    rw [hc, Text.crlf_feed, tokens_blank (by decide), tokens_blank (by decide), hreturn, Nat.add_assoc]
    rfl
  · rw [Text.crlf_cons_of_ne hc, tokens_blank hblank, Text.crlfChar, if_neg hc]
    rfl

/-- A text with carriage returns is cut as the text without is. -/
theorem exists_pieces_of_crlf (text : Text) (offset : Nat) (lineStart : Bool) {found : List Token}
    (h : tokens offset lineStart (Text.crlf text) = .ok found) (hreturn : '\r' ∉ text) :
    ∃ pieces, Piece.spell pieces = text ∧ Piece.Scanned [] lineStart pieces ∧ Piece.AllKept pieces := by
  match text with
  | [] => exact ⟨[], rfl, trivial, fun _ _ hmem => absurd hmem List.not_mem_nil⟩
  | c :: text =>
      have htext : '\r' ∉ text := fun hmem => hreturn (List.mem_cons_of_mem c hmem)
      by_cases hblank : isBlank c = true
      · rw [tokens_crlf_blank hblank] at h
        obtain ⟨pieces, rfl, hscanned, hkept⟩ := exists_pieces_of_crlf text _ _ h htext
        refine ⟨.blank c :: pieces, rfl, ⟨hblank, hscanned⟩, fun kind lexeme hmem => ?_⟩
        rcases List.mem_cons.mp hmem with hfirst | hmem
        · cases hfirst
        · exact hkept kind lexeme hmem
      · rw [Bool.not_eq_true] at hblank
        have hc := ne_feed_of_not_isBlank hblank
        rw [Text.crlf_cons_of_ne hc, tokens, if_neg (by rw [hblank]; decide)] at h
        split at h
        · cases h
        next kind length hhead =>
        -- the token in the other text tells of one here, and so does what is left
        obtain ⟨taken, hheads, htaken, rfl⟩ := (head_eq_ok_iff.mp hhead).of_crlf hc hreturn
        simp only [Text.drop_crlfLength] at h
        split at h
        · cases h
        next rest hrest =>
        have hdrop : '\r' ∉ text.drop taken := fun hmem => htext (List.mem_of_mem_drop hmem)
        have hshorter : (text.drop taken).length < (c :: text).length := by
          rw [List.length_drop, List.length_cons]
          omega
        obtain ⟨pieces, hspell, hscanned, hkept⟩ := exists_pieces_of_crlf _ _ _ hrest hdrop
        have hlength : (text.take taken).length = taken :=
          List.length_take_of_le (head_length_le (head_eq_ok_iff.mpr hheads))
        refine ⟨.token kind (c :: text.take taken) :: pieces, ?_, ⟨⟨c, _, rfl, hblank, ?_⟩, hscanned⟩, ?_⟩
        · rw [Piece.spell_cons, hspell, Piece.text, List.cons_append, List.take_append_drop]
        · rw [hspell, List.append_nil, List.take_append_drop, hlength]
          exact head_eq_ok_iff.mpr hheads
        · intro other lexeme hmem
          rcases List.mem_cons.mp hmem with hfirst | hmem
          · cases hfirst
            exact htaken
          · exact hkept other lexeme hmem
termination_by text.length

end Scan

namespace Piece

variable {text mark before rest : Text} {lineStart : Bool} {pieces : List Piece} {found : List Token}

theorem exists_cut_of_tokenize_crlf (h : tokenize (Text.crlf text) = .ok found) (hreturn : '\r' ∉ text) :
    ∃ mark pieces, Cut text mark pieces ∧ AllKept pieces := by
  cases text with
  | nil => exact ⟨[], [], ⟨rfl, trivial, .inr ⟨rfl, by simp⟩⟩, fun _ _ hmem => absurd hmem List.not_mem_nil⟩
  | cons c rest =>
      have hrest : '\r' ∉ rest := fun hmem => hreturn (List.mem_cons_of_mem c hmem)
      by_cases hmark : c = byteOrderMark
      · subst hmark
        rw [Text.crlf_cons_of_ne (by decide), tokenize, if_pos rfl] at h
        obtain ⟨pieces, rfl, hscanned, hkept⟩ := Scan.exists_pieces_of_crlf _ _ _ h hrest
        exact ⟨[byteOrderMark], pieces, ⟨rfl, hscanned, .inl rfl⟩, hkept⟩
      · have htokens : Scan.tokens 0 true (Text.crlf (c :: rest)) = .ok found := by
          by_cases hc : c = '\n'
          · rw [hc, Text.crlf_feed, tokenize, if_neg (by decide)] at h
            rwa [hc, Text.crlf_feed]
          · rw [Text.crlf_cons_of_ne hc, tokenize, if_neg hmark] at h
            rwa [Text.crlf_cons_of_ne hc]
        obtain ⟨pieces, hspell, hscanned, hkept⟩ := Scan.exists_pieces_of_crlf _ _ _ htokens hreturn
        exact ⟨[], pieces, ⟨hspell.symm, hscanned, .inr ⟨rfl, by simpa using hmark⟩⟩, hkept⟩

end Piece

/-- A token and the token it becomes when its text gets carriage returns. -/
structure Token.Returned (text : Text) (token token' : Token) : Prop where
  kind : token.kind = token'.kind
  lexeme : token'.lexeme = Text.crlf token.lexeme
  noReturn : '\r' ∉ token.lexeme
  plain : token.kind.spansLines = false → token.lexeme = token'.lexeme
  boundary : text.isBoundary token.start = true ∧ text.isBoundary token.stop = true
  span : token'.span = token.span.crlf text

namespace Piece

variable {text mark before rest : Text} {lineStart : Bool} {pieces : List Piece}

theorem forall₂_returned (hscanned : Scanned rest lineStart pieces)
    (hreturn : '\r' ∉ spell pieces ++ rest) (hkept : AllKept pieces)
    (htext : text = before ++ (spell pieces ++ rest)) :
    Forall₂ (Token.Returned text) (locate before.size pieces)
      (locate (Text.crlf before).size (crlf pieces)) := by
  induction pieces generalizing before lineStart with
  | nil => exact .nil
  | cons piece pieces ih =>
      rw [spell_cons, List.append_assoc] at hreturn htext
      have hrest : '\r' ∉ spell pieces ++ rest := fun hmem => hreturn (List.mem_append_right _ hmem)
      rw [← List.append_assoc before] at htext
      cases piece with
      | blank c =>
          have hnext := ih hscanned.2 hrest hkept.tail htext
          rw [Text.size_append, Text.crlf_append, Text.size_append] at hnext
          by_cases hc : c = '\n'
          · subst hc
            rw [crlf_feed]
            exact hnext
          · rw [crlf_blank hc]
            rw [Piece.text, Text.crlf_cons_of_ne hc] at hnext
            exact hnext
      | token kind lexeme =>
          have hnext := ih hscanned.2 hrest hkept.tail htext
          rw [Text.size_append, Text.crlf_append, Text.size_append] at hnext
          rw [crlf_token]
          have hstop : (Token.mk kind lexeme before.size).stop = Text.size (before ++ lexeme) :=
            (Text.size_append before lexeme).symm
          refine .cons ⟨rfl, rfl, fun hmem => hreturn (List.mem_append_left _ hmem), fun hspans => ?_,
            ⟨?_, ?_⟩, ?_⟩ hnext
          · have hline := hscanned.1.not_mem hreturn hspans (hkept kind lexeme List.mem_cons_self)
            exact (Text.crlf_eq_self hline).symm
          · rw [htext, List.append_assoc]
            exact Text.isBoundary_append before _
          · rw [hstop, htext]
            exact Text.isBoundary_append (before ++ lexeme) _
          · rw [Token.span, Token.span, Span.crlf, hstop, htext, Piece.text, Text.crlfOffset_append,
              List.append_assoc, Text.crlfOffset_append, Text.crlf_append, Text.size_append]
            rfl

theorem exists_mem_locate {kind : TokenKind} {lexeme : Text} (h : .token kind lexeme ∈ pieces)
    (offset : Nat) : ∃ start, ⟨kind, lexeme, start⟩ ∈ locate offset pieces := by
  induction pieces generalizing offset with
  | nil => cases h
  | cons piece pieces ih =>
      rcases List.mem_cons.mp h with rfl | hmem
      · exact ⟨offset, List.mem_cons_self⟩
      · cases piece with
        | blank c => exact ih hmem _
        | token other front =>
            obtain ⟨start, hstart⟩ := ih hmem (offset + front.size)
            exact ⟨start, List.mem_cons_of_mem _ hstart⟩

end Piece

/-! ## Trees -/

/-- No literal of one line goes on behind its end. -/
def Text.KeepsLines (text : Text) : Prop :=
  ∀ found, tokenize text = .ok found → ∀ token ∈ found, Scan.Kept token.kind token.lexeme

instance (text : Text) : Decidable text.KeepsLines :=
  match h : tokenize text with
  | .ok found =>
      decidable_of_iff (∀ token ∈ found, Scan.Kept token.kind token.lexeme)
        ⟨fun hkept _ hfound => Except.ok.inj (h.symm.trans hfound) ▸ hkept, fun hlines => hlines found h⟩
  | .error _ => isTrue fun _ hfound => nomatch h.symm.trans hfound

theorem Piece.Cut.allKept {text mark : Text} {pieces : List Piece} (h : Cut text mark pieces)
    (hlines : text.KeepsLines) : AllKept pieces := by
  intro kind lexeme hmem
  obtain ⟨start, hstart⟩ := exists_mem_locate hmem mark.size
  exact hlines _ h.tokenize_eq _ hstart

namespace Token

variable {text : Text} {R : Token → Token → Prop} {found found' : List Token}

theorem Returned.tells (text : Text) : Tells Text.crlfChar (Returned text) where
  looks := fun _ _ h => ⟨h.kind, h.plain⟩
  lexeme := fun _ _ h => h.lexeme

/-- Dropping the carriage returns tells of the text without. -/
theorem Returned.tells_flip (text : Text) :
    Tells (fun c => if c = '\r' then [] else [c]) (fun token' token => Returned text token token') where
  looks := (Returned.tells text).looks.flip
  lexeme := fun token' token h => by
    rw [h.lexeme]
    exact (Text.dropReturns_crlf h.noReturn).symm

theorem forall₂_code (hR : ∀ token token', R token token' → token.kind = token'.kind)
    (h : Forall₂ R found found') : Forall₂ R (code found) (code found') := by
  unfold code
  induction h with
  | nil => exact .nil
  | @cons token token' found found' htoken _ ih =>
      rw [List.filter_cons, List.filter_cons, ← hR token token' htoken]
      cases token.kind.isTrivia with
      | true => exact ih
      | false => exact .cons htoken ih

end Token

namespace CSharp

variable {text mark : Text} {pieces : List Piece} {late : List Text} {tree tree' : Tree}

theorem exists_cut_of_read_crlf (hread : read (Text.crlf text) = (late, .ok tree'))
    (hreturn : '\r' ∉ text) : ∃ mark pieces, Piece.Cut text mark pieces ∧ Piece.AllKept pieces := by
  obtain ⟨found, last, hfound, -⟩ := read_eq_ok_iff.mp hread
  exact Piece.exists_cut_of_tokenize_crlf hfound hreturn

theorem forall₂_returned (hcut : Piece.Cut text mark pieces) (hreturn : '\r' ∉ text)
    (hkept : Piece.AllKept pieces) :
    Forall₂ (Token.Returned text) (Piece.locate mark.size pieces)
      (Piece.locate mark.size (Piece.crlf pieces)) := by
  have hspell := hcut.not_mem hreturn
  have htext : text = mark ++ (Piece.spell pieces ++ []) := by
    rw [List.append_nil]
    exact hcut.eq
  have hall := Piece.forall₂_returned hcut.scanned (by rwa [List.append_nil]) hkept htext
  rwa [hcut.crlf_mark] at hall

/-- **Line ends keep the tree away from no text.** -/
theorem exists_read_of_crlf (hread : read (Text.crlf text) = (late, .ok tree'))
    (hreturn : '\r' ∉ text) : ∃ late tree, read text = (late, .ok tree) := by
  obtain ⟨mark, pieces, hcut, hkept⟩ := exists_cut_of_read_crlf hread hreturn
  have hreturned := forall₂_returned hcut hreturn hkept
  have hcode := Token.forall₂_code (fun _ _ h => h.kind.symm) hreturned.flip
  obtain ⟨tree, htree, -⟩ := read_reworded (Token.Returned.tells_flip text) hread
    (hcut.crlf hreturn hkept).tokenize_eq hcut.tokenize_eq hcode
  exact ⟨_, tree, htree⟩

/-- **Texts with other line ends are read alike.** The tree differs in its offsets, and in the line ends
that the names of directives hold. -/
theorem exists_read_crlf (hread : read text = (late, .ok tree)) (hreturn : '\r' ∉ text)
    (hlines : text.KeepsLines) :
    ∃ found found' tree', tokenize text = .ok found ∧ tokenize (Text.crlf text) = .ok found' ∧
      Forall₂ (Token.Returned text) found found' ∧
      read (Text.crlf text) = (late.map Text.crlf, .ok tree') ∧
      Forall₂ (Forall₂ (Directive.Moved (Token.Returned text))) (tree.reword Text.crlfChar).blocks
        tree'.blocks := by
  obtain ⟨found, last, hfound, -⟩ := read_eq_ok_iff.mp hread
  obtain ⟨mark, pieces, hcut, rfl⟩ := exists_cut_of_tokenize hfound
  have hkept := hcut.allKept hlines
  have hreturned := forall₂_returned hcut hreturn hkept
  have htokens' := (hcut.crlf hreturn hkept).tokenize_eq
  have hcode := Token.forall₂_code (fun _ _ h => h.kind) hreturned
  obtain ⟨tree', hread', -, hmoved⟩ := read_reworded (Token.Returned.tells text) hread hfound htokens'
    hcode
  exact ⟨_, _, tree', hfound, htokens', hreturned, hread', hmoved⟩

theorem isSome_tree?_iff : (tree? text).isSome ↔ ∃ late tree, read text = (late, .ok tree) := by
  rw [Option.isSome_iff_exists]
  constructor
  · rintro ⟨tree, htree⟩
    exact ⟨_, tree, tree?_eq_some_iff.mp htree⟩
  · rintro ⟨late, tree, hread⟩
    refine ⟨tree, tree?_eq_some_iff.mpr ?_⟩
    rw [hread]

theorem isSome_tree?_crlf_iff (hreturn : '\r' ∉ text) (hlines : text.KeepsLines) :
    (tree? (Text.crlf text)).isSome ↔ (tree? text).isSome := by
  rw [isSome_tree?_iff, isSome_tree?_iff]
  constructor
  · rintro ⟨late, tree', hread'⟩
    exact exists_read_of_crlf hread' hreturn
  · rintro ⟨late, tree, hread⟩
    obtain ⟨-, -, tree', -, -, -, hread', -⟩ := exists_read_crlf hread hreturn hlines
    exact ⟨_, tree', hread'⟩

end CSharp

end CSharpTidy
