import CSharpTidy.Toml.Token

namespace CSharpTidy

namespace Toml

/-- What follows a line break at the beginning of a text. -/
def lineBreak? : Text → Option Text
  | '\n' :: rest => some rest
  | '\r' :: '\n' :: rest => some rest
  | _ => none

def hexDigit? (c : Char) : Option Nat :=
  if '0' ≤ c && c ≤ '9' then some (c.toNat - '0'.toNat)
  else if 'a' ≤ c && c ≤ 'f' then some (c.toNat - 'a'.toNat + 10)
  else if 'A' ≤ c && c ≤ 'F' then some (c.toNat - 'A'.toNat + 10)
  else none

/-- The character whose number hexadecimal digits write. -/
def scalar? (digits : Text) : Option Char := do
  let number ← digits.foldlM (fun number c => (hexDigit? c).map (16 * number + ·)) 0
  if number.isValidChar then some (Char.ofNat number) else none

/-- Reads a character from its number in so many hexadecimal digits. -/
def numbered? (count : Nat) (text : Text) : Option (Char × Text) :=
  if text.length < count then none
  else (scalar? (text.take count)).map fun c => (c, text.drop count)

/-- Reads what follows a backslash. -/
def escape? : Text → Option (Char × Text)
  | 'b' :: rest => some ('\x08', rest)
  | 't' :: rest => some ('\t', rest)
  | 'n' :: rest => some ('\n', rest)
  | 'f' :: rest => some ('\x0c', rest)
  | 'r' :: rest => some ('\r', rest)
  | 'e' :: rest => some ('\x1b', rest)
  | '"' :: rest => some ('"', rest)
  | '\\' :: rest => some ('\\', rest)
  | 'x' :: rest => numbered? 2 rest
  | 'u' :: rest => numbered? 4 rest
  | 'U' :: rest => numbered? 8 rest
  | _ => none

theorem length_le_of_numbered? {count : Nat} {text rest : Text} {c : Char}
    (h : numbered? count text = some (c, rest)) : rest.length ≤ text.length := by
  unfold numbered? at h
  split at h
  · cases h
  · simp only [Option.map_eq_some_iff, Prod.mk.injEq] at h
    obtain ⟨found, hfound, hc, hrest⟩ := h
    rw [← hrest, List.length_drop]
    omega

theorem length_lt_of_escape? {text rest : Text} {c : Char} (h : escape? text = some (c, rest)) :
    rest.length < text.length := by
  unfold escape? at h
  split at h
  case h_9 | h_10 | h_11 =>
    have := length_le_of_numbered? h
    rw [List.length_cons]
    omega
  case h_12 => cases h
  all_goals
    simp only [Option.some.injEq, Prod.mk.injEq] at h
    rw [← h.2, List.length_cons]
    omega

/-- Reads what follows an opening double quote. -/
def basic? (text : Text) : Option (Text × Text) :=
  match text with
  | [] => none
  | '"' :: rest => some ([], rest)
  | '\\' :: rest =>
      match _hescape : escape? rest with
      | none => none
      | some (c, rest) => (basic? rest).map fun (value, rest) => (c :: value, rest)
  | c :: rest =>
      if isPlain c then (basic? rest).map fun (value, rest) => (c :: value, rest) else none
termination_by text.length
decreasing_by
  · have := length_lt_of_escape? _hescape
    simp only [List.length_cons]
    omega
  · simp only [List.length_cons]
    omega

/-- Reads what follows an opening single quote. -/
def literal? (text : Text) : Option (Text × Text) := do
  let (value, rest) ← text.cutAt? '\''
  if value.all isPlain then return (value, rest) else none

/-- What is left of a text after the blanks and whole line breaks that it begins with. -/
def skipLines : Text → Text
  | '\r' :: '\n' :: rest => skipLines rest
  | c :: rest => if isBlank c || c == '\n' then skipLines rest else c :: rest
  | [] => []

theorem length_skipLines_le (text : Text) : (skipLines text).length ≤ text.length := by
  fun_induction skipLines text <;> simp only [List.length_cons, List.length_nil] at * <;> omega

/-- Reads what follows three opening double quotes. Up to two more may stand before the closing
ones, and a backslash at the end of a line takes away all breaks and blanks up to the next word. -/
def basicLines? (text : Text) : Option (Text × Text) :=
  match text with
  | [] => none
  | '"' :: '"' :: '"' :: '"' :: '"' :: rest => some (['"', '"'], rest)
  | '"' :: '"' :: '"' :: '"' :: rest => some (['"'], rest)
  | '"' :: '"' :: '"' :: rest => some ([], rest)
  | '\\' :: rest =>
      if (lineBreak? (rest.dropWhile isBlank)).isSome then basicLines? (skipLines rest)
      else
        match _hescape : escape? rest with
        | none => none
        | some (c, rest) => (basicLines? rest).map fun (value, rest) => (c :: value, rest)
  | '\r' :: '\n' :: rest =>
      (basicLines? rest).map fun (value, rest) => ('\r' :: '\n' :: value, rest)
  | c :: rest =>
      if isPlain c || c == '\n' then
        (basicLines? rest).map fun (value, rest) => (c :: value, rest)
      else none
termination_by text.length
decreasing_by
  · have := length_skipLines_le rest
    simp only [List.length_cons]
    omega
  · have := length_lt_of_escape? _hescape
    simp only [List.length_cons]
    omega
  · simp only [List.length_cons]
    omega
  · simp only [List.length_cons]
    omega

/-- Reads what follows three opening single quotes. -/
def literalLines? : Text → Option (Text × Text)
  | [] => none
  | '\'' :: '\'' :: '\'' :: '\'' :: '\'' :: rest => some (['\'', '\''], rest)
  | '\'' :: '\'' :: '\'' :: '\'' :: rest => some (['\''], rest)
  | '\'' :: '\'' :: '\'' :: rest => some ([], rest)
  | '\r' :: '\n' :: rest =>
      (literalLines? rest).map fun (value, rest) => ('\r' :: '\n' :: value, rest)
  | c :: rest =>
      if isPlain c || c == '\n' then
        (literalLines? rest).map fun (value, rest) => (c :: value, rest)
      else none

/-- What was read, if it leaves nothing. -/
def whole? : Option (Text × Text) → Option String
  | some (value, []) => some (String.ofList value)
  | _ => none

def skipLineBreak (text : Text) : Text := (lineBreak? text).getD text

/-- What a string on one line says, by its first quote and what follows that. -/
def lineString? (quote : Char) (text : Text) : Option String :=
  whole? (if quote = '"' then basic? text else literal? text)

/-- What a string says, by its first quote and what follows that. -/
def string? (quote : Char) (text : Text) : Option String :=
  match text.skip? [quote, quote] with
  | none => lineString? quote text
  | some text =>
      let text := skipLineBreak text
      whole? (if quote = '"' then basicLines? text else literalLines? text)

end Toml

end CSharpTidy
