import CSharpTidy.Text.Cut

/-!
The spelling of numbers. No setting is a number, so only whether a text spells one is told, and how
large it is does not matter.
-/

namespace CSharpTidy

namespace Toml

def isHexDigit (c : Char) : Bool := c.isDigit || ('a' ≤ c && c ≤ 'f') || ('A' ≤ c && c ≤ 'F')

/-- Whether each underscore in a text has a digit before and after it, where `before` stands before
the text. -/
def isGrouped (isDigit : Char → Bool) (before : Char) : Text → Bool
  | [] => before != '_'
  | c :: rest =>
      (c != '_' || isDigit before) && (before != '_' || isDigit c) && isGrouped isDigit c rest

def isSpaced (isDigit : Char → Bool) (text : Text) : Bool :=
  !text.contains '_' || isGrouped isDigit '_' text

/-- A text without the sign that it may begin with, and whether there is one. -/
def cutSign : Text → Bool × Text
  | '+' :: rest | '-' :: rest => (true, rest)
  | text => (false, text)

/-- The digits and underscores that a text begins with, and what follows them. -/
def cutDigits (text : Text) : Text × Text := text.span fun c => c.isDigit || c == '_'

def isExponent : Text → Bool
  | [] => true
  | mark :: rest =>
      let (digits, rest) := cutDigits (cutSign rest).2
      (mark == 'e' || mark == 'E') && digits.any Char.isDigit && rest.isEmpty

/-- Whether a text without sign is a whole part, after a point a fraction if there is one, and an
exponent if there is one. -/
def isFloat (text : Text) : Bool :=
  let (whole, rest) := cutDigits text
  let digits := whole.countP Char.isDigit
  1 ≤ digits && (digits == 1 || whole.head? != some '0') &&
    match rest with
    | '.' :: rest =>
        let (fraction, rest) := cutDigits rest
        fraction.any Char.isDigit && isExponent rest
    | _ => isExponent rest

/-- Whether a text without sign is a whole number. Once an underscore has shown it to be one, only
what stands beside underscores is looked at. -/
def isInteger (text : Text) : Bool :=
  let rest := text.dropWhile Char.isDigit
  text == ['0'] || (text.head? != some '0' &&
    if rest.isEmpty then !text.isEmpty else rest.head? == some '_' && !rest.contains ' ')

/-- Whether a text without sign is a number in base ten. -/
def isDecimal (text : Text) : Bool :=
  if (text.dropWhile Char.isDigit).any fun c => c == '.' || c == 'e' || c == 'E' then
    isFloat text && isSpaced Char.isDigit text
  else isInteger text && isSpaced isHexDigit text

/-- The digits of a base by its letter. -/
def radixDigit? : Char → Option (Char → Bool)
  | 'x' => some isHexDigit
  | 'o' => some fun c => '0' ≤ c && c ≤ '7'
  | 'b' => some fun c => c == '0' || c == '1'
  | _ => none

def isNumber (text : Text) : Bool :=
  let (isSigned, text) := cutSign text
  if text == "inf".toList || text == "nan".toList then true
  else
    match text with
    | '0' :: letter :: digits =>
        match radixDigit? letter with
        | none => isDecimal text
        | some isDigit =>
            !isSigned && digits.all (fun c => isDigit c || c == '_') && isSpaced isHexDigit digits
    | _ => isDecimal text

example : ["0", "-0", "+1_000", "0xdead_beef", "0o17", "1.5", "-2.5e+10", "6.02E23", "-nan"].all
    fun text => isNumber text.toList := by
  decide +kernel

example : ["", "-", "01", "1.", ".5", "1e", "1__0", "_1", "+_1", "1_", "+0x1", "0X1", "nan1", "--1"].all
    fun text => !isNumber text.toList := by
  decide +kernel

end Toml

end CSharpTidy
