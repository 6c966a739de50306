import CSharpTidy.Format.Solution
import CSharpTidy.Proofs.Format.Code
import CSharpTidy.Proofs.Format.Relapse
import CSharpTidy.Rule.FormatCheck

/-!
# Fixed points of the formatter

The formatter goes through on every document with a tree, and its edits are gone after one pass unless
the pass brings a carriage return to the end of its line, with blanks in front of it. After two passes
they are gone in any case.
-/

namespace CSharpTidy

namespace Spacing

open Piece (locate)

variable {text text' text'' : Text} {tokens tokens' tokens'' : List Token} {tree : Tree}
  {options : FormatSettings} {document : Document}

theorem exists_reshaped_of_applied (htokens : tokenize text = .ok tokens)
    (happlied : Edit.applyAll text (edits text tokens options) = .ok text')
    (htokens' : tokenize text' = .ok tokens') :
    ∃ mark pieces pieces', Piece.Cut text mark pieces ∧ tokens = locate mark.size pieces ∧
      tokens' = locate mark.size pieces' ∧ Reshaped options text mark pieces text' pieces' := by
  obtain ⟨mark, pieces, hcut, rfl⟩ := exists_cut_of_tokenize htokens
  obtain ⟨found, pieces', hreshaped⟩ := exists_reshaped hcut options
  rw [hreshaped.applied, Except.ok.injEq] at happlied
  subst happlied
  rw [hreshaped.cut.tokenize_eq, Except.ok.injEq] at htokens'
  exact ⟨mark, pieces, pieces', hcut, rfl, htokens'.symm, hreshaped⟩

theorem Formatted.edits_eq_nil_iff {tree' : Tree}
    (h : Formatted options text tokens tree text' tokens' tree') :
    edits text' tokens' options = [] ↔ ¬Unsettled options text tokens := by
  obtain ⟨mark, pieces, pieces', hcut, rfl, rfl, hreshaped⟩ :=
    exists_reshaped_of_applied h.tokenized h.applied h.tokenized'
  rw [hreshaped.edits_eq_nil_iff hcut, unsettled_iff hcut, (parallel_respace hcut.scanned _).relapses,
    Bool.not_eq_true]

theorem Formatted.eq_self_iff {tree' : Tree}
    (h : Formatted options text tokens tree text' tokens' tree') :
    text' = text ↔ edits text tokens options = [] := by
  obtain ⟨mark, pieces, pieces', hcut, rfl, rfl, hreshaped⟩ :=
    exists_reshaped_of_applied h.tokenized h.applied h.tokenized'
  exact hreshaped.eq_self_iff hcut

/-- **Two passes are enough.** -/
theorem Formatted.edits_twice_eq_nil {tree' tree'' : Tree}
    (h : Formatted options text tokens tree text' tokens' tree')
    (h' : Formatted options text' tokens' tree' text'' tokens'' tree'') :
    edits text'' tokens'' options = [] := by
  obtain ⟨mark, pieces, pieces', hcut, rfl, rfl, hreshaped⟩ :=
    exists_reshaped_of_applied h.tokenized h.applied h.tokenized'
  obtain ⟨after, pieces'', hreshaped'⟩ := exists_reshaped hreshaped.cut options
  have happlied := h'.applied
  rw [hreshaped'.applied, Except.ok.injEq] at happlied
  subst happlied
  have htokens := h'.tokenized'
  rw [hreshaped'.cut.tokenize_eq, Except.ok.injEq] at htokens
  subst htokens
  exact hreshaped.edits_twice_eq_nil hreshaped' hcut

theorem formattedText?_eq
    (hedits : spacingFormatter document options = .ok (edits document.text tokens options))
    (happlied : Edit.applyAll document.text (edits document.text tokens options) = .ok text') :
    formattedText? spacingFormatter document options =
      .ok (if text' = document.text then none else some text') := by
  rw [formattedText?, hedits]
  simp only [changedText?, happlied]
  split
  · next hempty =>
      rw [List.isEmpty_iff] at hempty
      rw [hempty, Edit.applyAll_nil, Except.ok.injEq] at happlied
      rw [if_pos happlied.symm]
  · rfl

/-- **The formatter comes to rest.** On a document with a tree the formatter has edits, and they are
accepted. The text they give has a tree, and there the formatter has edits just where the text it comes
from is unsettled. A document counts as formatted just where there are no edits, and then the check
reports nothing. -/
theorem formatter_settles_iff {id : DocumentId} {path : Path}
    (hroot : (Document.parse CSharp.reader id path text).1.root = .ok tree)
    (options : FormatSettings) :
    ∃ tokens edits text' tree' edits',
      tokenize text = .ok tokens ∧
      spacingFormatter (Document.parse CSharp.reader id path text).1 options = .ok edits ∧
      Edit.applyAll text edits = .ok text' ∧
      ((Document.parse CSharp.reader id path text).1.withText CSharp.reader text').1.root = .ok tree' ∧
      spacingFormatter ((Document.parse CSharp.reader id path text).1.withText CSharp.reader text').1
        options = .ok edits' ∧
      (edits' = [] ↔ ¬Unsettled options text tokens) ∧
      (formattedText? spacingFormatter (Document.parse CSharp.reader id path text).1 options =
        .ok none ↔ edits = []) ∧
      ((FormatCheck.rule spacingFormatter options).evaluate
        (Document.parse CSharp.reader id path text).1 = .ok [] ↔ edits = []) := by
  obtain ⟨late, hread⟩ := Document.root_parse_eq_ok_iff.mp hroot
  obtain ⟨tokens, text', tokens', tree', hread', hformatted⟩ := exists_formatted hread options
  rw [Document.parse_eq hread] at hroot ⊢
  have hedits := spacingFormatter_eq hroot hformatted.tokenized options
  have hroot' : (Document.withText CSharp.reader ⟨id, path, text, .ok tree⟩ text').1.root =
      .ok tree' := by
    rw [Document.withText, Document.parse_eq hread']
    rfl
  have hedits' : spacingFormatter (Document.withText CSharp.reader ⟨id, path, text, .ok tree⟩ text').1
      options = .ok (edits text' tokens' options) := by
    rw [Document.withText, Document.parse_eq hread']
    exact spacingFormatter_eq rfl hformatted.tokenized' options
  refine ⟨tokens, edits text tokens options, text', tree', edits text' tokens' options,
    hformatted.tokenized, hedits, hformatted.applied, hroot', hedits',
    hformatted.edits_eq_nil_iff, ?_, ?_⟩
  · rw [formattedText?_eq hedits hformatted.applied, ← hformatted.eq_self_iff]
    change (Except.ok (if text' = text then none else some text') : Except Fault (Option Text)) =
      .ok none ↔ _
    split
    · next hsame => simp [hsame]
    · next hchanged => simp [hchanged]
  · simp only [FormatCheck.rule, hedits, Except.ok.injEq, List.map_eq_nil_iff]

/-- A carriage return inside a line is left alone, and there is nothing more to do. -/
theorem formatter_settles_iff_of_return :
    ∃ tree tokens edits text' edits',
      (Document.parse CSharp.reader ⟨0⟩ ⟨"a.cs"⟩ "using A; \r class C \x7b \x7d  ".toList).1.root =
        .ok tree ∧
      tokenize "using A; \r class C \x7b \x7d  ".toList = .ok tokens ∧
      spacingFormatter (Document.parse CSharp.reader ⟨0⟩ ⟨"a.cs"⟩
        "using A; \r class C \x7b \x7d  ".toList).1 {} = .ok edits ∧
      Edit.applyAll "using A; \r class C \x7b \x7d  ".toList edits = .ok text' ∧
      spacingFormatter ((Document.parse CSharp.reader ⟨0⟩ ⟨"a.cs"⟩
        "using A; \r class C \x7b \x7d  ".toList).1.withText CSharp.reader text').1 {} =
          .ok edits' ∧
      (edits' = [] ↔ ¬Unsettled {} "using A; \r class C \x7b \x7d  ".toList tokens) := by
  obtain ⟨tree, htree⟩ := Option.isSome_iff_exists.mp (by decide +kernel :
    (CSharp.tree? "using A; \r class C \x7b \x7d  ".toList).isSome)
  have hroot := Document.root_parse_of_tree? htree ⟨0⟩ ⟨"a.cs"⟩
  obtain ⟨tokens, edits, text', -, edits', htokens, hformat, happly, -, hformat', hsettles, -⟩ :=
    formatter_settles_iff hroot {}
  exact ⟨tree, tokens, edits, text', edits', hroot, htokens, hformat, happly, hformat', hsettles⟩

/-- Blanks in front of a carriage return are left for a second pass, which takes them away. -/
theorem formatter_unsettled_of_return :
    ∃ edits text' edits',
      spacingFormatter (Document.parse CSharp.reader ⟨0⟩ ⟨"a.cs"⟩ "using A; \r \n".toList).1 {} =
        .ok edits ∧
      Edit.applyAll "using A; \r \n".toList edits = .ok text' ∧
      spacingFormatter ((Document.parse CSharp.reader ⟨0⟩ ⟨"a.cs"⟩
        "using A; \r \n".toList).1.withText CSharp.reader text').1 {} = .ok edits' ∧
      edits' ≠ [] :=
  ⟨[.delete ⟨10, 11⟩], "using A; \r\n".toList, [.delete ⟨8, 9⟩], by decide +kernel⟩

end Spacing

end CSharpTidy
