import CSharpTidy.Text.Span

namespace CSharpTidy

/-- A place in a text as people count it: lines and columns start at one, columns count bytes. -/
structure Position where
  line : Nat
  column : Nat
deriving DecidableEq, Repr

structure LineRange where
  start : Position
  stop : Position
deriving DecidableEq, Repr

namespace LineRange

def render (span : LineRange) : String :=
  let column := fun position : Position => toString position.column
  let place := fun position : Position => toString position.line ++ ":" ++ column position
  if span.start.line = span.stop.line then place span.start ++ "-" ++ column span.stop
  else place span.start ++ "-" ++ place span.stop

end LineRange

/-- Where the lines of a text start, together with the length of the text. -/
structure LineTable where
  starts : Array Nat
  length : Nat
deriving Repr

/-- What looking for a number in an ascending row gives. -/
inductive Lookup where
  | hit (index : Nat)
  /-- The number is missing, and this is where it would go in. -/
  | miss (next : Nat)
deriving DecidableEq, Repr

namespace LineTable

/-- The offsets just after each line feed of a text that itself begins at `offset`. -/
def startsAfter (offset : Nat) : Text → List Nat
  | [] => []
  | c :: text =>
      let next := offset + c.utf8Size
      if c = '\n' then next :: startsAfter next text else startsAfter next text

def ofText (text : Text) : LineTable := ⟨(0 :: startsAfter 0 text).toArray, text.size⟩

def lineCount (table : LineTable) : Nat := table.starts.size

theorem middle_lt {low high bound : Nat} (hlt : low < high) (hle : high ≤ bound) :
    (low + high) / 2 < bound := by
  omega

/-- Looks for a number between two places of a row, one half of what is left after the other. -/
def search (row : Array Nat) (number low high : Nat) (h : high ≤ row.size) : Lookup :=
  if hlt : low < high then
    let middle := (low + high) / 2
    have hmiddle : middle < row.size := middle_lt hlt h
    if row[middle] < number then search row number (middle + 1) high h
    else if row[middle] = number then .hit middle
    else search row number low middle (Nat.le_of_lt hmiddle)
  else .miss low
termination_by high - low

def find (table : LineTable) (offset : Nat) : Lookup :=
  search table.starts offset 0 table.starts.size (Nat.le_refl _)

def lineAt (table : LineTable) (offset : Nat) : Nat :=
  match table.find offset with
  | .hit line => line
  | .miss next => next - 1

/-- The place of an offset. An offset past the end counts as the end. -/
def position (table : LineTable) (offset : Nat) : Position :=
  let offset := min offset table.length
  let line := table.lineAt offset
  ⟨line + 1, offset - table.starts.getD line 0 + 1⟩

def lineRange (table : LineTable) (span : Span) : LineRange :=
  ⟨table.position span.start, table.position span.stop⟩

end LineTable

end CSharpTidy
