import CSharpTidy.Fault

namespace CSharpTidy

/-- The bytes of a text from `start` up to but not including `stop`. -/
structure Span where
  start : Nat
  stop : Nat
deriving DecidableEq, Repr, Inhabited

namespace Span

def checked (start stop length : Nat) : Except Fault Span :=
  if start ≤ stop ∧ stop ≤ length then .ok ⟨start, stop⟩
  else .error (.invalidSpan start stop length)

def empty (offset : Nat) : Span := ⟨offset, offset⟩

def cover (first last : Span) : Span := ⟨min first.start last.start, max first.stop last.stop⟩

def length (span : Span) : Nat := span.stop - span.start

def isEmpty (span : Span) : Bool := span.start == span.stop

def contains (span : Span) (offset : Nat) : Bool :=
  decide (span.start ≤ offset) && decide (offset < span.stop)

def containsSpan (outer inner : Span) : Bool :=
  decide (outer.start ≤ inner.start) && decide (inner.stop ≤ outer.stop)

/-- Spans sort by their start and then by their stop. -/
instance : Ord Span where
  compare first second := (compare first.start second.start).then (compare first.stop second.stop)

def before (first second : Span) : Bool := (compare first second).isLE

def slice (span : Span) (text : Text) : Text := text.slice span.start span.stop

def render (span : Span) : String := "[" ++ toString span.start ++ ".." ++ toString span.stop ++ ")"

end Span

end CSharpTidy
