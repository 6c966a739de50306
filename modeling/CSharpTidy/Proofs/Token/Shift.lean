import CSharpTidy.Token.Scan

/-!
# Tokens further on

The scanner hands offsets on and never looks at them. So a text that begins further on has the same
tokens, each further on, and a byte-order mark in front of a text only moves what the text has.
-/

namespace CSharpTidy

namespace Token

variable {distance : Nat} {token : Token}

@[simp] theorem isMark_shift (distance : Nat) (token : Token) (mark : Char) :
    (token.shift distance).isMark mark = token.isMark mark := rfl

@[simp] theorem isWord_shift (distance : Nat) (token : Token) (word : String) :
    (token.shift distance).isWord word = token.isWord word := rfl

@[simp] theorem start_shift (distance : Nat) (token : Token) :
    (token.shift distance).start = token.start + distance := rfl

@[simp] theorem stop_shift (distance : Nat) (token : Token) :
    (token.shift distance).stop = token.stop + distance :=
  Nat.add_right_comm token.start distance token.lexeme.size

end Token

/-- The error as it shows `distance` bytes further on. -/
def ScanError.shift (distance : Nat) (error : ScanError) : ScanError :=
  { error with offset := error.offset + distance }

namespace Scan

def shift (distance : Nat) : Except ScanError (List Token) → Except ScanError (List Token)
  | .ok tokens => .ok (tokens.map (Token.shift distance))
  | .error error => .error (error.shift distance)

theorem tokens_shift (distance offset : Nat) (lineStart : Bool) (text : Text) :
    tokens (offset + distance) lineStart text = shift distance (tokens offset lineStart text) := by
  fun_induction tokens offset lineStart text with
  | case1 => rw [tokens]; rfl
  | case2 offset lineStart c text hblank ih =>
      rw [tokens, if_pos hblank, Nat.add_right_comm, ih]
  | case3 offset lineStart c text hblank fault hhead =>
      rw [tokens, if_neg hblank, hhead]
      rfl
  | case4 offset lineStart c text hblank kind length hhead lexeme error hrest ih =>
      rw [tokens, if_neg hblank, hhead]
      simp only
      rw [Nat.add_right_comm, ih, hrest]
      rfl
  | case5 offset lineStart c text hblank kind length hhead lexeme rest hrest ih =>
      rw [tokens, if_neg hblank, hhead]
      simp only
      rw [Nat.add_right_comm, ih, hrest]
      rfl

end Scan

/-- A byte-order mark moves the tokens of a text, or its error. -/
theorem tokenize_byteOrderMark {text : Text} (h : text.head? ≠ some byteOrderMark) :
    tokenize (byteOrderMark :: text) = Scan.shift byteOrderMark.utf8Size (tokenize text) := by
  have hwhole : tokenize text = Scan.tokens 0 true text := by
    cases text with
    | nil => rw [tokenize, Scan.tokens]
    | cons c text => rw [tokenize, if_neg (by simpa using h)]
  rw [hwhole, ← Scan.tokens_shift, Nat.zero_add, tokenize, if_pos rfl]

end CSharpTidy
