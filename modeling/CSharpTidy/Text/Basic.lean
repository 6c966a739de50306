namespace CSharpTidy

/-- A source text. Offsets into a text count the bytes of its UTF-8 encoding. -/
abbrev Text := List Char

namespace Text

def size : Text → Nat
  | [] => 0
  | c :: text => c.utf8Size + size text

/-- The longest beginning of a text that takes at most `n` bytes. -/
def takeBytes : Nat → Text → Text
  | _, [] => []
  | n, c :: text => if c.utf8Size ≤ n then c :: takeBytes (n - c.utf8Size) text else []

def dropBytes : Nat → Text → Text
  | _, [] => []
  | n, c :: text => if c.utf8Size ≤ n then dropBytes (n - c.utf8Size) text else c :: text

def slice (text : Text) (start stop : Nat) : Text :=
  (text.dropBytes start).takeBytes (stop - start)

def isBoundary : Text → Nat → Bool
  | [], offset => offset == 0
  | c :: text, offset =>
      offset == 0 || (decide (c.utf8Size ≤ offset) && isBoundary text (offset - c.utf8Size))

/-- The parts of a text between the occurrences of a separator. A text without one is one part. -/
def split (separator : Char) : Text → List Text
  | [] => [[]]
  | c :: text =>
      if c = separator then [] :: split separator text
      else
        match split separator text with
        | [] => [[c]]
        | part :: rest => (c :: part) :: rest

def lines (text : Text) : List Text := text.split '\n'

def foldCase (text : Text) : Text := text.map Char.toLower

@[simp] theorem size_nil : size [] = 0 := rfl

@[simp] theorem size_cons (c : Char) (text : Text) :
    size (c :: text) = c.utf8Size + size text := rfl

@[simp] theorem size_append (first second : Text) :
    size (first ++ second) = size first + size second := by
  induction first with
  | nil => simp
  | cons c first ih =>
      rw [List.cons_append, size_cons, size_cons, ih]
      omega

theorem split_eq_splitOn (separator : Char) (text : Text) :
    split separator text = text.splitOn separator := by
  induction text with
  | nil => rfl
  | cons c text ih =>
      rw [split, ih, List.splitOn_cons_eq_if_modifyHead]
      by_cases hc : c = separator
      · rw [if_pos hc, if_pos (beq_iff_eq.mpr hc)]
      · rw [if_neg hc, if_neg (mt beq_iff_eq.mp hc)]
        cases hparts : text.splitOn separator with
        | nil => exact absurd hparts (List.splitOn_ne_nil separator text)
        | cons part rest => rfl

theorem takeBytes_append_dropBytes (n : Nat) (text : Text) :
    takeBytes n text ++ dropBytes n text = text := by
  induction text generalizing n with
  | nil => rfl
  | cons c text ih =>
      unfold takeBytes dropBytes
      split
      · rw [List.cons_append, ih]
      · rfl

end Text

end CSharpTidy
