namespace CSharpTidy

/-- A moment by the nanoseconds since the beginning of 1970 in universal time. -/
structure Instant where
  nanoseconds : Nat
deriving DecidableEq, Repr

structure Day where
  year : Nat
  month : Nat
  day : Nat
deriving DecidableEq, Repr

namespace Day

/-- The days from 1 March of the year 0 to 1 January 1970. -/
def epoch : Nat := 719468

/-- The days in the 400 years after which the calendar repeats. -/
def cycle : Nat := 146097

/-- The day that lies a number of days after 1 January 1970. Years are counted from their March, so
that a leap day is the last day of one. -/
def ofNumber (number : Nat) : Day :=
  let inCycle := (number + epoch) % cycle
  let year := (inCycle - inCycle / 1460 + inCycle / 36524 - inCycle / 146096) / 365
  let inYear := inCycle - (365 * year + year / 4 - year / 100)
  let month := (5 * inYear + 2) / 153
  { year := year + 400 * ((number + epoch) / cycle) + (if month < 10 then 0 else 1)
    month := if month < 10 then month + 3 else month - 9
    day := inYear - (153 * month + 2) / 5 + 1 }

example : ofNumber 0 = ⟨1970, 1, 1⟩ := rfl

example : ofNumber 19782 = ⟨2024, 2, 29⟩ := rfl

example : ofNumber 19783 = ⟨2024, 3, 1⟩ := rfl

end Day

namespace Instant

def padded (width n : Nat) : String :=
  let digits := toString n
  String.ofList (List.replicate (width - digits.length) '0') ++ digits

/-- The fraction of a second in as few groups of three digits as it takes. -/
def fraction (nanoseconds : Nat) : String :=
  if nanoseconds = 0 then ""
  else if nanoseconds % 1000000 = 0 then "." ++ padded 3 (nanoseconds / 1000000)
  else if nanoseconds % 1000 = 0 then "." ++ padded 6 (nanoseconds / 1000)
  else "." ++ padded 9 nanoseconds

def render (instant : Instant) : String :=
  let seconds := instant.nanoseconds / 1000000000
  let date := Day.ofNumber (seconds / 86400)
  let time := seconds % 86400
  padded 4 date.year ++ "-" ++ padded 2 date.month ++ "-" ++ padded 2 date.day ++ "T" ++
    padded 2 (time / 3600) ++ ":" ++ padded 2 (time / 60 % 60) ++ ":" ++ padded 2 (time % 60) ++
    fraction (instant.nanoseconds % 1000000000) ++ "Z"

end Instant

end CSharpTidy
