import CSharpTidy.Text.Basic

namespace CSharpTidy

namespace Text

/-- The characters with the Unicode property `White_Space`. -/
def isBlank (c : Char) : Bool :=
  let n := c.toNat
  (0x09 ≤ n && n ≤ 0x0d) || n == 0x20 || n == 0x85 || n == 0xa0 || n == 0x1680 ||
    (0x2000 ≤ n && n ≤ 0x200a) || n == 0x2028 || n == 0x2029 || n == 0x202f || n == 0x205f ||
    n == 0x3000

def dropBlanks (text : Text) : Text := text.dropWhile isBlank

def trim (text : Text) : Text := (text.dropBlanks.reverse.dropWhile isBlank).reverse

theorem length_dropBlanks_le (text : Text) : text.dropBlanks.length ≤ text.length :=
  (List.dropWhile_sublist isBlank).length_le

end Text

end CSharpTidy
