import CSharpTidy.Text.Cut

/-!
The pieces of a file of settings. Comments are left out, and strings and words are kept as they
stand: whether they say anything is found out later. A text has no pieces at all if a comment holds
a control character or a line ends in a lone carriage return.
-/

namespace CSharpTidy

namespace Toml

/-- Whether a character may stand in a string or a comment: all but control characters may, and a
tab may too. -/
def isPlain (c : Char) : Bool := (0x20 ≤ c.toNat && c.toNat ≠ 0x7f) || c == '\t'

def isBlank (c : Char) : Bool := c == ' ' || c == '\t'

inductive Token where
  | dot
  | equals
  | comma
  | openBracket
  | closeBracket
  | openBrace
  | closeBrace
  | lineBreak
  | blanks (text : Text)
  /-- A string with its quotes, as far as it goes. -/
  | quoted (text : Text)
  /-- Whatever else stands up to the next mark, blank or line break. -/
  | word (text : Text)
deriving DecidableEq, Repr

namespace Token

def mark? : Char → Option Token
  | '.' => some dot
  | '=' => some equals
  | ',' => some comma
  | '[' => some openBracket
  | ']' => some closeBracket
  | '\x7b' => some openBrace
  | '\x7d' => some closeBrace
  | '\n' => some lineBreak
  | _ => none

def isBlanks : Token → Bool
  | blanks _ => true
  | _ => false

/-- Whether a piece tells nothing but that others are apart. -/
def isSpace (token : Token) : Bool := token.isBlanks || token == lineBreak

/-- The text of a piece that can be a part of a key. -/
def part? : Token → Option Text
  | quoted text | word text => some text
  | _ => none

end Token

/-- Whether a character ends a word. -/
def endsWord (c : Char) : Bool := (Token.mark? c).isSome || isBlank c || c == '#' || c == '\r'

/-- Whether a backslash keeps a character from being read as a quote or as another backslash. -/
def isShielded (quote c : Char) : Bool := quote == '"' && (c == '"' || c == '\\')

/-- What follows the closing quote of a string on one line. One that is not closed ends with its
line. -/
def afterLine (quote : Char) : Text → Text
  | [] => []
  | '\\' :: c :: rest =>
      if isShielded quote c then afterLine quote rest else afterLine quote (c :: rest)
  | c :: rest =>
      if c = '\n' then c :: rest else if c = quote then rest else afterLine quote rest

def skipQuote (quote : Char) (text : Text) : Text := (text.skip? [quote]).getD text

/-- What follows the three closing quotes of a string on several lines, and up to two quotes more
that belong to it. -/
def afterLines (quote : Char) : Text → Text
  | [] => []
  | '\\' :: c :: rest =>
      if isShielded quote c then afterLines quote rest else afterLines quote (c :: rest)
  | c :: rest =>
      match Text.skip? (c :: rest) [quote, quote, quote] with
      | some rest => skipQuote quote (skipQuote quote rest)
      | none => afterLines quote rest

/-- What follows a string, after its first quote. -/
def afterString (quote : Char) (text : Text) : Text :=
  match text.skip? [quote, quote] with
  | some rest => afterLines quote rest
  | none => afterLine quote text

theorem length_afterLine_le (quote : Char) (text : Text) :
    (afterLine quote text).length ≤ text.length := by
  fun_induction afterLine quote text <;> simp only [List.length_cons, List.length_nil] at * <;>
    omega

theorem length_skipQuote_le (quote : Char) (text : Text) :
    (skipQuote quote text).length ≤ text.length := by
  unfold skipQuote
  cases h : text.skip? [quote] with
  | none => exact Nat.le_refl text.length
  | some rest => exact Text.length_le_of_skip? h

theorem length_afterLines_le (quote : Char) (text : Text) :
    (afterLines quote text).length ≤ text.length := by
  fun_induction afterLines quote text with
  | case4 c rest _ after hskip =>
      have hfirst := length_skipQuote_le quote (skipQuote quote after)
      have hsecond := length_skipQuote_le quote after
      have hafter := Text.length_le_of_skip? hskip
      omega
  | case1 => exact Nat.le_refl 0
  | case2 | case3 | case5 => simp only [List.length_cons] at *; omega

theorem length_afterString_le (quote : Char) (text : Text) :
    (afterString quote text).length ≤ text.length := by
  unfold afterString
  split
  · rename_i rest hskip
    exact Nat.le_trans (length_afterLines_le quote rest) (Text.length_le_of_skip? hskip)
  · exact length_afterLine_le quote text

def tokens? (text : Text) : Option (List Token) :=
  match text with
  | [] => some []
  | '\r' :: '\n' :: rest => (tokens? rest).map (.lineBreak :: ·)
  | c :: rest =>
      match Token.mark? c with
      | some mark => (tokens? rest).map (mark :: ·)
      | none =>
          if isBlank c then
            (tokens? (rest.dropWhile isBlank)).map (.blanks (c :: rest.takeWhile isBlank) :: ·)
          else if c = '#' then
            let after := rest.dropWhile isPlain
            if after.head?.all fun c => c == '\n' || c == '\r' then tokens? after else none
          else if c = '\r' then none
          else if c = '"' || c = '\'' then
            let after := afterString c rest
            (tokens? after).map (.quoted (c :: rest.take (rest.length - after.length)) :: ·)
          else
            let inWord := fun c => !endsWord c
            (tokens? (rest.dropWhile inWord)).map (.word (c :: rest.takeWhile inWord) :: ·)
termination_by text.length
decreasing_by
  all_goals simp only [List.length_cons]
  · omega
  · omega
  · exact Nat.lt_succ_of_le (List.dropWhile_sublist isBlank (l := rest)).length_le
  · exact Nat.lt_succ_of_le (List.dropWhile_sublist isPlain (l := rest)).length_le
  · exact Nat.lt_succ_of_le (length_afterString_le c rest)
  · exact Nat.lt_succ_of_le (List.dropWhile_sublist _ (l := rest)).length_le

end Toml

end CSharpTidy
