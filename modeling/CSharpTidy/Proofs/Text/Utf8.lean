import CSharpTidy.Text.Basic
import CSharpTidy.Text.Utf8

/-!
# The bytes of a text

A text is encoded character by character, so its bytes are as many as its size says and those of two
texts in a row stand in a row.
-/

namespace CSharpTidy

namespace Text

theorem toList_loop (bytes : ByteArray) (i : Nat) (found : List UInt8) :
    ByteArray.toList.loop bytes i found = found.reverse ++ bytes.data.toList.drop i := by
  fun_induction ByteArray.toList.loop bytes i found with
  | case1 i found hlt ih =>
      have hlength : i < bytes.data.toList.length := hlt
      have hget : bytes.get! i = bytes.data.toList.get ⟨i, hlength⟩ := getElem!_pos bytes.data i hlt
      rw [ih, List.drop_eq_getElem_cons hlength, hget, List.reverse_cons, List.append_assoc]
      rfl
  | case2 i found hlt =>
      have hlength : bytes.data.toList.length ≤ i := Nat.le_of_not_lt hlt
      rw [List.drop_eq_nil_of_le hlength, List.append_nil]

/-- A text is encoded character by character. -/
theorem toUtf8_eq (text : Text) : toUtf8 text = text.flatMap String.utf8EncodeChar := by
  rw [toUtf8, ByteArray.toList, toList_loop]
  exact List.toList_data_toByteArray

@[simp] theorem toUtf8_nil : toUtf8 [] = [] := toUtf8_eq []

theorem toUtf8_cons (c : Char) (text : Text) :
    toUtf8 (c :: text) = String.utf8EncodeChar c ++ toUtf8 text := by
  rw [toUtf8_eq, toUtf8_eq, List.flatMap_cons]

theorem toUtf8_append (first second : Text) :
    toUtf8 (first ++ second) = toUtf8 first ++ toUtf8 second := by
  rw [toUtf8_eq, toUtf8_eq, toUtf8_eq, List.flatMap_append]

@[simp] theorem length_toUtf8 (text : Text) : (toUtf8 text).length = size text := by
  induction text with
  | nil => rw [toUtf8_nil, size_nil, List.length_nil]
  | cons c text ih => rw [toUtf8_cons, List.length_append, String.length_utf8EncodeChar, ih, size_cons]

theorem utf8ByteSize_ofList (text : Text) : (String.ofList text).utf8ByteSize = text.size := by
  rw [← length_toUtf8, toUtf8_eq]
  exact List.size_toByteArray

end Text

end CSharpTidy
