import Mathlib.Tactic.SplitIfs
import CSharpTidy.Proofs.Text.Bytes

/-!
# What a byte tells of its character

An ASCII character is one byte, and the bytes of another are all above ASCII, so a byte that is an ASCII
mark is that mark. What is looked for among characters by tests that go by ASCII marks may be looked for
among bytes as well.
-/

namespace CSharpTidy

namespace Text

variable {text : Text} {c d m : Char} {byte : UInt8} {bytes first second : List UInt8}

/-! ## Bytes of characters -/

theorem exists_utf8EncodeChar_cons (c : Char) :
    ∃ byte bytes, String.utf8EncodeChar c = byte :: bytes :=
  List.exists_cons_of_ne_nil String.utf8EncodeChar_ne_nil

theorem utf8EncodeChar_of_lt (h : c.toNat < 0x80) : String.utf8EncodeChar c = [c.toUInt8] := by
  have hone : c.utf8Size = 1 :=
    Char.utf8Size_eq_one_iff.mpr (UInt32.le_iff_toNat_le.mpr (Nat.le_of_lt_succ h))
  rw [String.utf8EncodeChar_eq_singleton hone, Char.toUInt8_val]

theorem high_of_mem_utf8EncodeChar (h : 0x80 ≤ c.toNat) :
    ∀ byte ∈ String.utf8EncodeChar c, 0x80 ≤ byte.toNat := by
  have hhigh : ¬c.val.toNat ≤ 0x7f := Nat.not_le_of_lt h
  have hofNat : ∀ n, 0x80 ≤ n → n < 0x100 → 0x80 ≤ (UInt8.ofNat n).toNat := by
    intro n hlow hbyte
    rw [UInt8.toNat_ofNat_of_lt' hbyte]
    exact hlow
  unfold String.utf8EncodeChar
  simp only [if_neg hhigh]
  split_ifs <;>
    simp (disch := omega) only [List.forall_mem_cons, List.not_mem_nil, hofNat, false_imp_iff,
      implies_true, and_true]

theorem toNat_toUInt8 (h : c.toNat < 0x80) : c.toUInt8.toNat = c.toNat := by
  rw [← Char.toUInt8_val, UInt32.toNat_toUInt8]
  exact Nat.mod_eq_of_lt (Nat.lt_trans h (by decide))

/-- A byte of a character is the character itself, or both are above ASCII. -/
theorem byte_cases (hbyte : byte ∈ String.utf8EncodeChar c) :
    byte.toNat = c.toNat ∧ c.toNat < 0x80 ∨ 0x80 ≤ byte.toNat ∧ 0x80 ≤ c.toNat := by
  rcases Nat.lt_or_ge c.toNat 0x80 with hc | hc
  · rw [utf8EncodeChar_of_lt hc, List.mem_singleton] at hbyte
    rw [hbyte, toNat_toUInt8 hc]
    exact .inl ⟨rfl, hc⟩
  · exact .inr ⟨high_of_mem_utf8EncodeChar hc byte hbyte, hc⟩

theorem eq_toUInt8_iff (hmark : m.toNat < 0x80) (hbyte : byte ∈ String.utf8EncodeChar c) :
    byte = m.toUInt8 ↔ c = m := by
  have hcases := byte_cases hbyte
  rw [← UInt8.toNat_inj, toNat_toUInt8 hmark, ← Char.toNat_inj]
  omega

theorem ne_toUInt8 (hmark : m.toNat < 0x80) (hc : c ≠ m) (hbyte : byte ∈ String.utf8EncodeChar c) :
    byte ≠ m.toUInt8 :=
  mt (eq_toUInt8_iff hmark hbyte).mp hc

theorem toUInt8_mem (h : c.toNat < 0x80) : c.toUInt8 ∈ String.utf8EncodeChar c := by
  rw [utf8EncodeChar_of_lt h]
  exact List.mem_singleton_self c.toUInt8

theorem ne_toUInt8_of_high (hmark : m.toNat < 0x80) (hbyte : 0x80 ≤ byte.toNat) :
    byte ≠ m.toUInt8 := by
  rintro rfl
  rw [toNat_toUInt8 hmark] at hbyte
  omega

/-- Behind its first byte a character has only bytes above ASCII. -/
theorem high_of_mem_tail (h : String.utf8EncodeChar c = byte :: bytes) :
    ∀ byte ∈ bytes, 0x80 ≤ byte.toNat := by
  rcases Nat.lt_or_ge c.toNat 0x80 with hc | hc
  · rw [utf8EncodeChar_of_lt hc] at h
    rw [← (List.cons.inj h).2]
    exact nofun
  · exact fun byte hbyte => high_of_mem_utf8EncodeChar hc byte (h ▸ List.mem_cons_of_mem _ hbyte)

/-- The first character of a text is known by its first bytes. -/
theorem utf8EncodeChar_append_inj
    (h : String.utf8EncodeChar c ++ first = String.utf8EncodeChar d ++ second) : c = d := by
  have hself (bytes : List UInt8) : compare bytes bytes ≠ .lt := by
    have heq : compare bytes bytes = .eq := Std.ReflCmp.compare_self
    rw [heq]
    decide
  rcases Std.lt_trichotomy c d with hlt | heq | hlt
  · exact absurd (h ▸ compare_utf8EncodeChar_append hlt first second) (hself _)
  · exact heq
  · exact absurd (h ▸ compare_utf8EncodeChar_append hlt second first) (hself _)

/-! ## Encodings -/

theorem toUtf8_cons_of_lt (h : c.toNat < 0x80) (text : Text) :
    toUtf8 (c :: text) = c.toUInt8 :: text.toUtf8 := by
  rw [toUtf8_cons, utf8EncodeChar_of_lt h, List.singleton_append]

theorem utf8Size_of_lt (h : c.toNat < 0x80) : c.utf8Size = 1 := by
  rw [← String.length_utf8EncodeChar, utf8EncodeChar_of_lt h, List.length_singleton]

theorem size_of_forall_lt (h : ∀ d ∈ text, d.toNat < 0x80) : text.size = text.length := by
  induction text with
  | nil => rfl
  | cons c text ih =>
      rw [List.forall_mem_cons] at h
      rw [size_cons, ih h.2, utf8Size_of_lt h.1, List.length_cons, Nat.add_comm]

theorem mem_of_toUtf8_cons (hbytes : toUtf8 (c :: text) = byte :: bytes) :
    byte ∈ String.utf8EncodeChar c := by
  obtain ⟨first, others, hencode⟩ := exists_utf8EncodeChar_cons c
  rw [toUtf8_cons, hencode, List.cons_append] at hbytes
  rw [hencode, (List.cons.inj hbytes).1]
  exact List.mem_cons_self

theorem mem_toUtf8 (hmark : m.toNat < 0x80) : m.toUInt8 ∈ text.toUtf8 ↔ m ∈ text := by
  rw [toUtf8_eq, List.mem_flatMap]
  constructor
  · rintro ⟨c, hmem, hbyte⟩
    exact (eq_toUInt8_iff hmark hbyte).mp rfl ▸ hmem
  · exact fun hmem => ⟨m, hmem, toUInt8_mem hmark⟩

theorem getLast?_toUtf8 (hmark : m.toNat < 0x80) (text : Text) :
    text.toUtf8.getLast? = some m.toUInt8 ↔ text.getLast? = some m := by
  rcases List.eq_nil_or_concat text with rfl | ⟨front, last, rfl⟩
  · rw [toUtf8_nil]
    exact iff_of_false nofun nofun
  · have hlast := List.getLast?_eq_some_getLast (String.utf8EncodeChar_ne_nil (c := last))
    rw [List.concat_eq_append, toUtf8_append, toUtf8_cons, toUtf8_nil, List.append_nil,
      List.getLast?_append, hlast, Option.some_or, List.getLast?_concat, Option.some.injEq,
      Option.some.injEq]
    exact eq_toUInt8_iff hmark (List.getLast_mem _)

/-! ## Tests -/

/-- A test on bytes that says of each byte of a character what another says of the character. -/
def Agree (p : UInt8 → Bool) (q : Char → Bool) : Prop :=
  ∀ c, ∀ byte ∈ String.utf8EncodeChar c, p byte = q c

theorem agree_mark (hmark : m.toNat < 0x80) : Agree (· == m.toUInt8) (· == m) := by
  intro c byte hbyte
  rw [Bool.eq_iff_iff, beq_iff_eq, beq_iff_eq, eq_toUInt8_iff hmark hbyte]

variable {p : UInt8 → Bool} {q : Char → Bool}

theorem takeWhile_toUtf8 (h : Agree p q) (text : Text) :
    text.toUtf8.takeWhile p = toUtf8 (text.takeWhile q) := by
  induction text with
  | nil => rw [toUtf8_nil, List.takeWhile_nil, List.takeWhile_nil, toUtf8_nil]
  | cons c text ih =>
      rw [toUtf8_cons]
      cases hc : q c with
      | true =>
          have hall : ∀ byte ∈ String.utf8EncodeChar c, p byte = true := fun byte hbyte =>
            (h c byte hbyte).trans hc
          rw [List.takeWhile_append_of_pos hall, List.takeWhile_cons_of_pos hc, ih, toUtf8_cons]
      | false =>
          obtain ⟨byte, bytes, hbytes⟩ := exists_utf8EncodeChar_cons c
          have hbyte : p byte = false := (h c byte (hbytes ▸ List.mem_cons_self)).trans hc
          rw [hbytes, List.cons_append, List.takeWhile_cons_of_neg (by simp [hbyte]),
            List.takeWhile_cons_of_neg (by simp [hc]), toUtf8_nil]

theorem dropWhile_toUtf8 (h : Agree p q) (text : Text) :
    text.toUtf8.dropWhile p = toUtf8 (text.dropWhile q) := by
  have hcut := toUtf8_append (text.takeWhile q) (text.dropWhile q)
  rw [List.takeWhile_append_dropWhile, ← takeWhile_toUtf8 h] at hcut
  exact List.append_cancel_left (List.takeWhile_append_dropWhile.trans hcut)

theorem head?_any_toUtf8 (h : Agree p q) (text : Text) : text.toUtf8.head?.any p = text.head?.any q := by
  cases text with
  | nil => rw [toUtf8_nil]; rfl
  | cons c text =>
      obtain ⟨byte, bytes, hbytes⟩ := exists_utf8EncodeChar_cons c
      rw [toUtf8_cons, hbytes]
      exact h c byte (hbytes ▸ List.mem_cons_self)

theorem head?_toUtf8 (hmark : m.toNat < 0x80) (text : Text) :
    text.toUtf8.head? = some m.toUInt8 ↔ text.head? = some m := by
  have hany := head?_any_toUtf8 (agree_mark hmark) text
  rw [Bool.eq_iff_iff] at hany
  simpa [Option.any_eq_true] using hany

theorem head?_beq_toUtf8 (hmark : m.toNat < 0x80) (text : Text) :
    (text.toUtf8.head? == some m.toUInt8) = (text.head? == some m) := by
  rw [Bool.eq_iff_iff, beq_iff_eq, beq_iff_eq, head?_toUtf8 hmark]

theorem head?_tail_toUtf8 {first second : Char} (hfirst : first.toNat < 0x80)
    (hsecond : second.toNat < 0x80) (text : Text) :
    (text.toUtf8.head? == some first.toUInt8 && text.toUtf8.tail.head? == some second.toUInt8) =
      (text.head? == some first && text.tail.head? == some second) := by
  rw [head?_beq_toUtf8 hfirst]
  cases hhead : text.head? == some first with
  | false => rfl
  | true =>
      obtain ⟨rest, rfl⟩ := List.head?_eq_some_iff.mp (beq_iff_eq.mp hhead)
      rw [toUtf8_cons_of_lt hfirst, List.tail_cons, head?_beq_toUtf8 hsecond, List.tail_cons]

/-! ## Widths -/

/-- How many bytes the first characters of a text have. -/
def bytesOf (text : Text) (n : Nat) : Nat := size (text.take n)

theorem drop_toUtf8 (n : Nat) (text : Text) :
    text.toUtf8.drop (bytesOf text n) = toUtf8 (text.drop n) := by
  have hcut := toUtf8_append (text.take n) (text.drop n)
  rw [List.take_append_drop] at hcut
  rw [hcut, bytesOf, ← length_toUtf8, List.drop_left]

theorem bytesOf_succ (c : Char) (text : Text) (n : Nat) :
    bytesOf (c :: text) (n + 1) = bytesOf text n + c.utf8Size := by
  rw [bytesOf, List.take_succ_cons, size_cons, Nat.add_comm]
  rfl

theorem bytesOf_succ_of_lt (h : c.toNat < 0x80) (text : Text) (n : Nat) :
    bytesOf (c :: text) (n + 1) = 1 + bytesOf text n := by
  rw [bytesOf_succ, utf8Size_of_lt h, Nat.add_comm]

theorem bytesOf_length_succ (c : Char) (front rest : Text) :
    bytesOf (c :: (front ++ rest)) (front.length + 1) = size (c :: front) := by
  rw [bytesOf, List.take_succ_cons, List.take_left]

theorem bytesOf_add (text : Text) (m n : Nat) :
    bytesOf text (m + n) = bytesOf text m + bytesOf (text.drop m) n := by
  rw [bytesOf, List.take_add, size_append]
  rfl

theorem bytesOf_append (first second : Text) (n : Nat) :
    bytesOf (first ++ second) (first.length + n) = first.size + bytesOf second n := by
  rw [bytesOf_add, bytesOf, List.take_left, List.drop_left]

theorem bytesOf_takeWhile (q : Char → Bool) (text : Text) :
    bytesOf text (text.takeWhile q).length = size (text.takeWhile q) := by
  rw [bytesOf, ← List.prefix_iff_eq_take.mp (List.takeWhile_prefix q)]

theorem map_bytesOf_succ (c : Char) (text : Text) (found : Option Nat) :
    (found.map (· + 1)).map (bytesOf (c :: text)) =
      (found.map (bytesOf text)).map (· + c.utf8Size) := by
  cases found with
  | none => rfl
  | some n => exact congrArg some (bytesOf_succ c text n)

end Text

end CSharpTidy
