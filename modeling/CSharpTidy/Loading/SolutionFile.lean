import CSharpTidy.Path
import CSharpTidy.Text.Blank
import CSharpTidy.Text.Cut

namespace CSharpTidy

structure SolutionEntry where
  name : String
  path : Path
deriving DecidableEq, Repr

namespace SolutionEntry

/-- A path whose parts stand between slashes of either kind. -/
def pathOf (written : Text) : Path :=
  let parts := (written.split '\\').flatMap (Text.split '/')
  parts.foldl (fun path part => path.join ⟨String.ofList part⟩) ⟨""⟩

/-- Reads a text in double quotes, which cannot hold any. -/
def quoted? (text : Text) : Option (Text × Text) := (text.skip? ['"']).bind (Text.cutAt? '"')

/-- Reads a mark between blanks. -/
def mark? (c : Char) (text : Text) : Option Text := (text.dropBlanks.skip? [c]).map Text.dropBlanks

/-- Reads `Project("{kind}") = "name", "path"` at the beginning of a line, and leaves the rest. -/
def read? (line : Text) : Option (SolutionEntry × Text) := do
  let rest ← line.dropBlanks.skip? "Project(\"\x7b".toList
  let (_, rest) ← rest.cutAt? '\x7d'
  let rest ← rest.skip? "\")".toList
  let rest ← mark? '=' rest
  let (name, rest) ← quoted? rest
  let rest ← mark? ',' rest
  let (path, rest) ← quoted? rest
  return (⟨String.ofList name, pathOf path⟩, rest)

theorem length_lt_of_quoted? {text value rest : Text} (h : quoted? text = some (value, rest)) :
    rest.length < text.length := by
  simp only [quoted?, Option.bind_eq_some_iff] at h
  obtain ⟨inner, hskip, hcut⟩ := h
  have hinner := Text.length_le_of_skip? hskip
  have hrest := Text.length_lt_of_cutAt? hcut
  omega

theorem length_le_of_mark? {c : Char} {text rest : Text} (h : mark? c text = some rest) :
    rest.length ≤ text.length := by
  simp only [mark?, Option.map_eq_some_iff] at h
  obtain ⟨inner, hskip, rfl⟩ := h
  have hinner := Text.length_le_of_skip? hskip
  have := Text.length_dropBlanks_le text
  have := Text.length_dropBlanks_le inner
  omega

theorem length_lt_of_read? {line rest : Text} {entry : SolutionEntry}
    (h : read? line = some (entry, rest)) : rest.length < line.length := by
  simp only [read?, bind, pure, Option.bind_eq_some_iff, Option.some.injEq, Prod.mk.injEq] at h
  obtain ⟨opened, hopened, ⟨kind, closing⟩, hclosing, closed, hclosed, named, hnamed,
    ⟨name, after⟩, hafter, placed, hplaced, ⟨path, last⟩, hlast, -, rfl⟩ := h
  dsimp only at hclosed hplaced ⊢
  have := Text.length_dropBlanks_le line
  have := Text.length_le_of_skip? hopened
  have := Text.length_lt_of_cutAt? hclosing
  have := Text.length_le_of_skip? hclosed
  have := length_le_of_mark? hnamed
  have := length_lt_of_quoted? hafter
  have := length_le_of_mark? hplaced
  have := length_lt_of_quoted? hlast
  omega

/-- The entries of a text that begins with a line. Each stands at the beginning of one. -/
def readAll (text : Text) : List SolutionEntry :=
  match _hread : read? text with
  | some (entry, rest) =>
      match _hcut : rest.cutAt? '\n' with
      | some (_, next) => entry :: readAll next
      | none => [entry]
  | none =>
      match _hcut : text.cutAt? '\n' with
      | some (_, next) => readAll next
      | none => []
termination_by text.length
decreasing_by
  · have := length_lt_of_read? _hread
    have := Text.length_lt_of_cutAt? _hcut
    omega
  · have := Text.length_lt_of_cutAt? _hcut
    omega

end SolutionEntry

end CSharpTidy
