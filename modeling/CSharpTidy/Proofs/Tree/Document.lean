import CSharpTidy.Document
import CSharpTidy.Proofs.Tree.Segment

/-!
# Documents that the C# reader read

A document has a tree exactly where its text can be read, and its notices are about directives that
come late.
-/

namespace CSharpTidy

theorem CSharp.tree_reader_eq_some_iff {path : Path} {text : Text} {tree : Tree} :
    (reader path text).tree = some tree ↔ ∃ late, read text = (late, .ok tree) := by
  unfold reader
  cases hread : read text with
  | mk late result => cases result <;> simp

namespace Document

variable {id : DocumentId} {path : Path} {text : Text} {late : List Text} {tree : Tree}

theorem parse_eq (h : CSharp.read text = (late, .ok tree)) :
    parse CSharp.reader id path text =
      (⟨id, path, text, .ok tree⟩, late.map (lateDirectiveNotice path)) := by
  rw [parse, CSharp.reader, h]
  rfl

theorem root_parse_eq_ok_iff :
    (parse CSharp.reader id path text).1.root = .ok tree ↔
      ∃ late, CSharp.read text = (late, .ok tree) := by
  constructor
  · intro h
    cases hread : CSharp.read text with
    | mk late result =>
        cases result with
        | ok found =>
            rw [parse_eq hread] at h
            cases h
            exact ⟨late, rfl⟩
        | error fault =>
            rw [parse, CSharp.reader, hread] at h
            cases h
  · rintro ⟨late, h⟩
    rw [parse_eq h]
    rfl

theorem root_parse_of_tree? (h : CSharp.tree? text = some tree) (id : DocumentId) (path : Path) :
    (parse CSharp.reader id path text).1.root = .ok tree :=
  root_parse_eq_ok_iff.mpr ⟨_, CSharp.tree?_eq_some_iff.mp h⟩

end Document

end CSharpTidy
