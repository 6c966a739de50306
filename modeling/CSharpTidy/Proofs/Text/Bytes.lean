import Mathlib.Tactic.SplitIfs
import CSharpTidy.Proofs.Text.Utf8

/-!
# Texts compare as their bytes

An ordinal order of texts goes by the bytes of their encoding. UTF-8 keeps the order of characters in
the first byte in which two of them differ, so going by characters is the same.
-/

namespace CSharpTidy

namespace Text

variable {first second : List UInt8} {m n : Nat} {c d : Char}

theorem compare_byte_cons (hm : m < 256) (hn : n < 256) :
    compare (UInt8.ofNat m :: first) (UInt8.ofNat n :: second) = .lt ↔
      m < n ∨ m = n ∧ compare first second = .lt := by
  have hlt : UInt8.ofNat m < UInt8.ofNat n ↔ m < n := by
    rw [UInt8.lt_iff_toNat_lt, UInt8.toNat_ofNat_of_lt' hm, UInt8.toNat_ofNat_of_lt' hn]
  have heq : UInt8.ofNat m = UInt8.ofNat n ↔ m = n := by
    rw [← UInt8.toNat_inj, UInt8.toNat_ofNat_of_lt' hm, UInt8.toNat_ofNat_of_lt' hn]
  rw [List.compare_cons_cons, Ordering.then_eq_lt, Std.compare_eq_lt, Std.compare_eq_iff_eq, hlt, heq]

/-- The first byte tells how many follow, more for higher characters, and the rest of a character is
spelled from its highest bits down. -/
theorem compare_utf8EncodeChar_append (h : c < d) (first second : List UInt8) :
    compare (String.utf8EncodeChar c ++ first) (String.utf8EncodeChar d ++ second) = .lt := by
  have hlt : c.val.toNat < d.val.toNat := h
  have hbound : d.val.toNat < 0x110000 := by
    have hvalid : Nat.isValidChar d.val.toNat := d.valid
    rcases hvalid with hlow | hhigh <;> omega
  unfold String.utf8EncodeChar
  generalize c.val.toNat = m at *
  generalize d.val.toNat = n at *
  have hdigits : ∀ k : Nat, k / 64 / 64 = k / 4096 ∧ k / 4096 / 64 = k / 262144 := fun k =>
    ⟨Nat.div_div_eq_div_mul .., Nat.div_div_eq_div_mul ..⟩
  have hm := hdigits m
  have hn := hdigits n
  have hhigh : m / 262144 % 8 = m / 262144 ∧ n / 262144 % 8 = n / 262144 :=
    ⟨Nat.mod_eq_of_lt (by omega), Nat.mod_eq_of_lt (by omega)⟩
  simp only
  split_ifs <;>
    (simp (disch := omega) only [List.cons_append, List.nil_append, compare_byte_cons]
     omega)

theorem compare_append_append (lead first second : List UInt8) :
    compare (lead ++ first) (lead ++ second) = compare first second := by
  induction lead with
  | nil => rfl
  | cons byte lead ih =>
      have hself : compare byte byte = .eq := Std.ReflCmp.compare_self
      rw [List.cons_append, List.cons_append, List.compare_cons_cons, hself, ih]
      rfl

theorem exists_toUtf8_cons (c : Char) (text : Text) :
    ∃ byte bytes, toUtf8 (c :: text) = byte :: bytes := by
  rw [toUtf8_cons]
  obtain ⟨byte, bytes, hbytes⟩ := List.exists_cons_of_ne_nil (String.utf8EncodeChar_ne_nil (c := c))
  exact ⟨byte, bytes ++ toUtf8 text, by rw [hbytes, List.cons_append]⟩

/-- **Texts compare as their bytes.** -/
theorem compare_toUtf8 (first second : Text) :
    compare first.toUtf8 second.toUtf8 = compare first second := by
  induction first generalizing second with
  | nil =>
      cases second with
      | nil => rw [toUtf8_nil, List.compare_nil_nil, List.compare_nil_nil]
      | cons d second =>
          obtain ⟨byte, bytes, hbytes⟩ := exists_toUtf8_cons d second
          rw [toUtf8_nil, hbytes, List.compare_nil_cons, List.compare_nil_cons]
  | cons c first ih =>
      cases second with
      | nil =>
          obtain ⟨byte, bytes, hbytes⟩ := exists_toUtf8_cons c first
          rw [toUtf8_nil, hbytes, List.compare_cons_nil, List.compare_cons_nil]
      | cons d second =>
          rw [toUtf8_cons, toUtf8_cons, List.compare_cons_cons]
          cases hcompare : compare c d with
          | lt =>
              rw [compare_utf8EncodeChar_append (compareOfLessAndEq_eq_lt.mp hcompare)]
              rfl
          | eq =>
              obtain rfl := Std.LawfulEqCmp.eq_of_compare hcompare
              rw [compare_append_append, ih]
              rfl
          | gt =>
              have hlower : compare d c = .lt := Std.OrientedCmp.lt_of_gt hcompare
              have hlt := compareOfLessAndEq_eq_lt.mp hlower
              exact Std.OrientedCmp.gt_of_lt (compare_utf8EncodeChar_append hlt _ _)

end Text

end CSharpTidy
