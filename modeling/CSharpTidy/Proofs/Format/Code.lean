import CSharpTidy.Proofs.Format.Pass
import CSharpTidy.Proofs.Tree.Document
import CSharpTidy.Proofs.Tree.Moved

/-!
# Formatting and the code

A formatted text has the tokens of the old one, one for one, and they are read alike. Its tree differs
in offsets only, and its directives begin and end with the counterparts of the tokens they did.
-/

namespace CSharpTidy

open List (Forall₂)

/-- A token of the same kind with a tidied lexeme. -/
def Token.TidiedTo (token token' : Token) : Prop :=
  token'.kind = token.kind ∧ Spacing.Tidied token.kind token.lexeme token'.lexeme

/-- Tokens at the same place of two lists that agree in kind and lexeme. -/
def Token.Counterpart (tokens tokens' : List Token) (token token' : Token) : Prop :=
  (token.kind = token'.kind ∧ token.lexeme = token'.lexeme) ∧
    ∃ index : Nat, tokens[index]? = some token ∧ tokens'[index]? = some token'

namespace Token

variable {tokens tokens' : List Token} {token token' : Token}

theorem keeps_counterpart (tokens tokens' : List Token) : Keeps (Counterpart tokens tokens') :=
  fun _ _ h => h.1

theorem forall₂_getElem? {α β : Type} {S : α → β → Prop} {items : List α} {items' : List β}
    (h : Forall₂ S items items') :
    Forall₂ (fun item item' => S item item' ∧
      ∃ index : Nat, items[index]? = some item ∧ items'[index]? = some item') items items' := by
  induction h with
  | nil => exact .nil
  | cons hitem hrest ih =>
      refine .cons ⟨hitem, 0, rfl, rfl⟩ (ih.imp fun item item' h => ?_)
      obtain ⟨hsame, index, hfound, hfound'⟩ := h
      exact ⟨hsame, index + 1, hfound, hfound'⟩

theorem TidiedTo.lexeme_eq (h : TidiedTo token token') (hkind : token.kind.isTrivia = false) :
    token'.lexeme = token.lexeme := by
  have htidied := h.2
  rw [Spacing.Tidied, hkind] at htidied
  exact htidied

theorem counterpart_code (h : Forall₂ TidiedTo tokens tokens') :
    Forall₂ (Counterpart tokens tokens') (code tokens) (code tokens') := by
  have hplaced := forall₂_getElem? h
  have hfilter : ∀ {found found' : List Token},
      Forall₂ (fun token token' => TidiedTo token token' ∧
        ∃ index : Nat, tokens[index]? = some token ∧ tokens'[index]? = some token') found found' →
      Forall₂ (Counterpart tokens tokens') (code found) (code found') := by
    intro found found' h
    unfold code
    induction h with
    | nil => exact .nil
    | @cons token token' found found' htoken _ ih =>
        obtain ⟨htidied, hindex⟩ := htoken
        rw [List.filter_cons, List.filter_cons, htidied.1]
        cases hkind : token.kind.isTrivia with
        | true => exact ih
        | false =>
            exact .cons ⟨⟨htidied.1.symm, (htidied.lexeme_eq hkind).symm⟩, hindex⟩ ih
  exact hfilter hplaced

end Token

namespace Spacing

open Piece (locate)

variable {text text' text'' mark : Text} {tokens tokens' tokens'' : List Token} {late : List Text}
  {tree : Tree} {options : FormatSettings} {pieces pieces' : List Piece}

/-- What formatting makes of a text with a tree. -/
structure Formatted (options : FormatSettings) (text : Text) (tokens : List Token) (tree : Tree)
    (text' : Text) (tokens' : List Token) (tree' : Tree) : Prop where
  tokenized : tokenize text = .ok tokens
  tokenized' : tokenize text' = .ok tokens'
  applied : Edit.applyAll text (edits text tokens options) = .ok text'
  tidied : Forall₂ Token.TidiedTo tokens tokens'
  unplaced : tree.unplaced = tree'.unplaced
  moved : Forall₂ (Forall₂ (Directive.Moved (Token.Counterpart tokens tokens'))) tree.blocks
    tree'.blocks

theorem tidiedTo_locate (h : Forall₂ Tidies (Piece.tokens pieces) (Piece.tokens pieces'))
    (offset : Nat) : Forall₂ Token.TidiedTo (locate offset pieces) (locate offset pieces') := by
  rw [← Piece.map_locate offset, ← Piece.map_locate offset, List.forall₂_map_left_iff,
    List.forall₂_map_right_iff] at h
  exact h.imp fun _ _ h => h

/-- **Formatted texts are read alike.** -/
theorem exists_formatted (hread : CSharp.read text = (late, .ok tree)) (options : FormatSettings) :
    ∃ tokens text' tokens' tree', CSharp.read text' = (late, .ok tree') ∧
      Formatted options text tokens tree text' tokens' tree' := by
  obtain ⟨tokens, last, htokens, -⟩ := CSharp.read_eq_ok_iff.mp hread
  obtain ⟨mark, pieces, hcut, rfl⟩ := exists_cut_of_tokenize htokens
  obtain ⟨text', pieces', hreshaped⟩ := exists_reshaped hcut options
  have htokens' := hreshaped.cut.tokenize_eq
  have htidied := tidiedTo_locate hreshaped.tidies mark.size
  obtain ⟨tree', hread', hunplaced, hmoved⟩ := CSharp.read_moved (Token.keeps_counterpart _ _) hread
    htokens htokens' (Token.counterpart_code htidied)
  exact ⟨_, text', _, tree', hread', htokens, htokens', hreshaped.applied, htidied, hunplaced, hmoved⟩

theorem spacingFormatter_eq {document : Document} (hroot : document.root = .ok tree)
    (htokens : tokenize document.text = .ok tokens) (options : FormatSettings) :
    spacingFormatter document options = .ok (edits document.text tokens options) := by
  rw [spacingFormatter, hroot]
  simp only [htokens]

/-- **Formatting leaves the code alone.** The edits are accepted. The new text has the tokens of the old
one in the same order: those of the code with their lexemes, comments and preprocessor lines trimmed,
up to a carriage return. It is read as the same tree at other offsets, with the same notices. -/
theorem formatting_keeps_code {id : DocumentId} {path : Path}
    (hroot : (Document.parse CSharp.reader id path text).1.root = .ok tree)
    (options : FormatSettings) :
    ∃ edits text' tokens tokens' tree',
      spacingFormatter (Document.parse CSharp.reader id path text).1 options = .ok edits ∧
      Edit.applyAll text edits = .ok text' ∧
      tokenize text = .ok tokens ∧ tokenize text' = .ok tokens' ∧
      Forall₂ Token.TidiedTo tokens tokens' ∧
      (Document.parse CSharp.reader id path text').1.root = .ok tree' ∧
      tree'.unplaced = tree.unplaced ∧
      (Document.parse CSharp.reader id path text').2 =
        (Document.parse CSharp.reader id path text).2 := by
  obtain ⟨late, hread⟩ := Document.root_parse_eq_ok_iff.mp hroot
  obtain ⟨tokens, text', tokens', tree', hread', hformatted⟩ := exists_formatted hread options
  refine ⟨edits text tokens options, text', tokens, tokens', tree', ?_, hformatted.applied,
    hformatted.tokenized, hformatted.tokenized', hformatted.tidied, ?_, hformatted.unplaced.symm, ?_⟩
  · rw [Document.parse_eq hread] at hroot ⊢
    exact spacingFormatter_eq hroot hformatted.tokenized options
  · rw [Document.parse_eq hread']
    rfl
  · rw [Document.parse_eq hread, Document.parse_eq hread']

/-- A block comment is trimmed and a keyword gets its space, and the class stays. -/
theorem formatting_keeps_code_of_class :
    ∃ tree edits text' tree',
      (Document.parse CSharp.reader ⟨0⟩ ⟨"a.cs"⟩
        "class C \x7b\n/* a  \n */ void M() \x7b if(true) \x7b \x7d \x7d \x7d  \n".toList).1.root =
          .ok tree ∧
      spacingFormatter (Document.parse CSharp.reader ⟨0⟩ ⟨"a.cs"⟩
        "class C \x7b\n/* a  \n */ void M() \x7b if(true) \x7b \x7d \x7d \x7d  \n".toList).1 {} =
          .ok edits ∧
      Edit.applyAll "class C \x7b\n/* a  \n */ void M() \x7b if(true) \x7b \x7d \x7d \x7d  \n".toList
        edits = .ok text' ∧
      (Document.parse CSharp.reader ⟨0⟩ ⟨"a.cs"⟩ text').1.root = .ok tree' ∧
      tree'.unplaced = tree.unplaced := by
  obtain ⟨tree, htree⟩ := Option.isSome_iff_exists.mp (by decide +kernel :
    (CSharp.tree?
      "class C \x7b\n/* a  \n */ void M() \x7b if(true) \x7b \x7d \x7d \x7d  \n".toList).isSome)
  have hroot := Document.root_parse_of_tree? htree ⟨0⟩ ⟨"a.cs"⟩
  obtain ⟨edits, text', -, -, tree', hformat, happly, -, -, -, hroot', hunplaced, -⟩ :=
    formatting_keeps_code hroot {}
  exact ⟨tree, edits, text', tree', hroot, hformat, happly, hroot', hunplaced⟩

/-- Comments do not differ in blanks alone: a carriage return inside a comment goes to the end of the
line, and one at the end of a file goes into the comment where a line end is added. -/
theorem formatting_moves_returns :
    (∃ edits text' token token',
      spacingFormatter (Document.parse CSharp.reader ⟨0⟩ ⟨"a.cs"⟩ "// a\r \n".toList).1 {} =
        .ok edits ∧
      Edit.applyAll "// a\r \n".toList edits = .ok text' ∧
      tokenize "// a\r \n".toList = .ok [token] ∧ tokenize text' = .ok [token'] ∧
      token.lexeme.filter (!isBlank ·) ≠ token'.lexeme.filter (!isBlank ·)) ∧
    ∃ edits text' token token',
      spacingFormatter (Document.parse CSharp.reader ⟨0⟩ ⟨"a.cs"⟩ "\r\n// a\r".toList).1
        { insertFinalNewline := true } = .ok edits ∧
      Edit.applyAll "\r\n// a\r".toList edits = .ok text' ∧
      tokenize "\r\n// a\r".toList = .ok [token] ∧ tokenize text' = .ok [token'] ∧
      token.lexeme.filter (!isBlank ·) ≠ token'.lexeme.filter (!isBlank ·) :=
  ⟨⟨[.delete ⟨5, 6⟩], "// a\r\n".toList, ⟨.lineComment, "// a\r ".toList, 0⟩,
      ⟨.lineComment, "// a".toList, 0⟩, by decide +kernel⟩,
    [.insert 7 "\r\n".toList], "\r\n// a\r\r\n".toList, ⟨.lineComment, "// a".toList, 2⟩,
    ⟨.lineComment, "// a\r".toList, 2⟩, by decide +kernel⟩

end Spacing

end CSharpTidy
