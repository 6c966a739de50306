import CSharpTidy.Text.Cut

/-!
The spelling of dates and times. No setting is one, so only whether a text spells one is told.
-/

namespace CSharpTidy

namespace Toml

/-- Reads a number that has exactly so many digits. -/
def digits? (count : Nat) (text : Text) : Option (Nat × Text) :=
  let (digits, rest) := text.span Char.isDigit
  if digits.length = count then
    some (digits.foldl (fun number c => 10 * number + (c.toNat - '0'.toNat)) 0, rest)
  else none

def isLeapYear (year : Nat) : Bool := year % 4 == 0 && (year % 100 != 0 || year % 400 == 0)

def daysInMonth (year month : Nat) : Nat :=
  if month = 2 then (if isLeapYear year then 29 else 28)
  else if month = 4 || month = 6 || month = 9 || month = 11 then 30
  else 31

def date? (text : Text) : Option Text := do
  let (year, rest) ← digits? 4 text
  let rest ← rest.skip? ['-']
  let (month, rest) ← digits? 2 rest
  let rest ← rest.skip? ['-']
  let (day, rest) ← digits? 2 rest
  if 1 ≤ month && month ≤ 12 && 1 ≤ day && day ≤ daysInMonth year month then some rest else none

def clock? (text : Text) : Option Text := do
  let (hour, rest) ← digits? 2 text
  let rest ← rest.skip? [':']
  let (minute, rest) ← digits? 2 rest
  if hour ≤ 23 && minute ≤ 59 then some rest else none

/-- Reads what may follow the seconds of a time: their fraction. -/
def fraction? (text : Text) : Option Text :=
  match text with
  | '.' :: rest =>
      if (rest.head?.map Char.isDigit).getD false then some (rest.dropWhile Char.isDigit) else none
  | _ => some text

/-- Reads a time. Its seconds may be missing, and there may be 60 of them. -/
def time? (text : Text) : Option Text := do
  match ← clock? text with
  | ':' :: rest =>
      let (second, rest) ← digits? 2 rest
      if second ≤ 60 then fraction? rest else none
  | rest => return rest

/-- Whether a text is nothing or tells how far the time is from that of the zero meridian. -/
def isOffset : Text → Bool
  | [] | ['Z'] | ['z'] => true
  | '+' :: rest | '-' :: rest => clock? rest == some []
  | _ => false

/-- Whether a text spells a date, a time or both, and with both an offset. -/
def isMoment (text : Text) : Bool :=
  match date? text with
  | some [] => true
  | some (mark :: rest) =>
      (mark == 'T' || mark == 't' || mark == ' ') && ((time? rest).map isOffset).getD false
  | none => time? text == some []

example : ["1979-05-27", "1979-05-27T07:32:00Z", "1979-05-27 07:32:00.999999-07:00", "07:32",
    "2024-02-29", "23:59:60.5"].all fun text => isMoment text.toList := by
  decide +kernel

example : ["1979-13-01", "2023-02-29", "25:00:00", "07:32Z", "07:32:", "1979-05-27T", "07",
    "1979-5-27", "1979-05-27  07:32"].all fun text => !isMoment text.toList := by
  decide +kernel

end Toml

end CSharpTidy
