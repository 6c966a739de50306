import CSharpTidy.Text.Span

namespace CSharpTidy

/-- Why marks in a text do not pair up. -/
inductive MarkupFault where
  | nested
  | unopened
  | unclosed
deriving DecidableEq, Repr

namespace MarkupFault

def message : MarkupFault → String
  | nested => "nested [| in markup"
  | unopened => "|] without [| in markup"
  | unclosed => "unclosed [| in markup"

end MarkupFault

namespace Markup

/-- A text without its marks, and the spans that the marks enclose. -/
structure Marked where
  text : Text
  spans : List Span
deriving DecidableEq, Repr

/-- Reads on at `offset` of the unmarked text, where a mark may be open since some offset. -/
def readFrom (offset : Nat) (openedAt : Option Nat) : Text → Except MarkupFault Marked
  | [] => if openedAt.isSome then .error .unclosed else .ok ⟨[], []⟩
  | '[' :: '|' :: rest =>
      if openedAt.isSome then .error .nested else readFrom offset (some offset) rest
  | '|' :: ']' :: rest =>
      match openedAt with
      | none => .error .unopened
      | some start =>
          match readFrom offset none rest with
          | .error fault => .error fault
          | .ok marked => .ok { marked with spans := ⟨start, offset⟩ :: marked.spans }
  | c :: rest =>
      match readFrom (offset + c.utf8Size) openedAt rest with
      | .error fault => .error fault
      | .ok marked => .ok { marked with text := c :: marked.text }

/-- Takes the marks `[|` and `|]` out of a text. -/
def read (marked : Text) : Except MarkupFault Marked := readFrom 0 none marked

end Markup

end CSharpTidy
