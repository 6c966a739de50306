import CSharpTidy.Text.Span

namespace CSharpTidy

structure Edit where
  span : Span
  replacement : Text
deriving DecidableEq, Repr

namespace Edit

def insert (offset : Nat) (text : Text) : Edit := ⟨.empty offset, text⟩

def delete (span : Span) : Edit := ⟨span, []⟩

/-- Edits in the order of their spans. Edits of one span keep their order. -/
def sort (edits : List Edit) : List Edit :=
  edits.mergeSort fun first second => first.span.before second.span

/-- The span of an edit, if it lies in the text and cuts through no character. -/
def checkedSpan (text : Text) (edit : Edit) : Except Fault Span :=
  match Span.checked edit.span.start edit.span.stop text.size with
  | .error fault => .error fault
  | .ok span =>
      if text.isBoundary span.start && text.isBoundary span.stop then .ok span
      else .error (.invalidSpan span.start span.stop text.size)

/-- What follows `cursor` in a text after edits that stand in the order of their spans. -/
def splice (text : Text) (cursor : Nat) : List Edit → Except Fault Text
  | [] => .ok (text.dropBytes cursor)
  | edit :: edits =>
      match edit.checkedSpan text with
      | .error fault => .error fault
      | .ok span =>
          if span.start < cursor then .error (.overlappingEdits cursor span.start)
          else
            match splice text span.stop edits with
            | .error fault => .error fault
            | .ok rest => .ok (text.slice cursor span.start ++ edit.replacement ++ rest)

/-- The text after all edits, which may come in any order but must not overlap. -/
def applyAll (text : Text) (edits : List Edit) : Except Fault Text := splice text 0 (sort edits)

end Edit

end CSharpTidy
