import CSharpTidy.Proofs.Text.Ascii
import CSharpTidy.Proofs.Token.Lookahead
import CSharpTidy.Proofs.Token.Tiling
import CSharpTidy.Token.Bytes

/-!
# Scanning by characters is scanning by bytes

The scanner of bytes finds, on the encoding of a text, what the scanner of characters finds on the text:
tokens of the same kinds at the same places, or the same error. Each test on a byte is one on the
character that it belongs to, and a byte that is taken behind a backslash leaves bytes that nothing looks
for.
-/

namespace CSharpTidy

namespace ByteScan

open Text

variable {text : Text} {c m : Char} {byte : UInt8} {lead : List UInt8}

/-! ## Classes of bytes -/

theorem isAlpha_iff : c.isAlpha = true ↔
    (0x41 ≤ c.toNat ∧ c.toNat ≤ 0x5a) ∨ (0x61 ≤ c.toNat ∧ c.toNat ≤ 0x7a) := by
  have hupper : c.isUpper = true ↔ 'A'.val ≤ c.val ∧ c.val ≤ 'Z'.val := decide_eq_true_iff
  have hlower : c.isLower = true ↔ 'a'.val ≤ c.val ∧ c.val ≤ 'z'.val := by
    rw [← decide_eq_true_iff (p := 'a'.val ≤ c.val), ← decide_eq_true_iff (p := c.val ≤ 'z'.val)]
    exact Bool.and_eq_true_iff
  have halpha : c.isAlpha = true ↔ c.isUpper = true ∨ c.isLower = true := Bool.or_eq_true_iff
  rw [halpha, hupper, hlower]
  exact Iff.rfl

theorem agree_digit : Agree isDigit Char.isDigit := by
  intro c byte hbyte
  have hcases := byte_cases hbyte
  rw [Bool.eq_iff_iff]
  simp [isDigit, Char.isDigit, UInt8.le_iff_toNat_le, UInt32.le_iff_toNat_le]
  omega

theorem agree_alphanumeric : Agree isAlphanumeric Char.isAlphanum := by
  intro c byte hbyte
  have hcases := byte_cases hbyte
  rw [isAlphanumeric, Bool.or_assoc, Bool.or_comm, agree_digit c byte hbyte, Char.isAlphanum]
  refine congrArg (· || c.isDigit) (Bool.eq_iff_iff.mpr ?_)
  rw [isAlpha_iff]
  simp [UInt8.le_iff_toNat_le]
  omega

theorem agree_identifier : Agree isIdentifierByte Scan.isIdentifierChar := by
  intro c byte hbyte
  have hcases := byte_cases hbyte
  have hmark : (byte == '_'.toUInt8) = (c == '_') := agree_mark (by decide) c byte hbyte
  have hhigh : decide (0x80 ≤ byte) = decide (0x80 ≤ c.val) := by
    rw [decide_eq_decide, UInt8.le_iff_toNat_le, UInt32.le_iff_toNat_le]
    change 0x80 ≤ byte.toNat ↔ 0x80 ≤ c.toNat
    omega
  rw [isIdentifierByte, Scan.isIdentifierChar, agree_alphanumeric c byte hbyte, hmark, hhigh]

/-! ## Ends of comments and literals -/

/-- Bytes at each of which a length only goes up by one. -/
theorem length?_append {length? : List UInt8 → Option Nat}
    (h : ∀ byte ∈ lead, ∀ bytes, length? (byte :: bytes) = (length? bytes).map (· + 1))
    (bytes : List UInt8) : length? (lead ++ bytes) = (length? bytes).map (· + lead.length) := by
  induction lead with
  | nil => exact Option.map_id'.symm
  | cons byte lead ih =>
      rw [List.forall_mem_cons] at h
      rw [List.cons_append, h.1, ih h.2, Option.map_map]
      rfl

theorem length?_toUtf8_cons {length? : List UInt8 → Option Nat}
    (h : ∀ byte ∈ String.utf8EncodeChar c, ∀ bytes,
      length? (byte :: bytes) = (length? bytes).map (· + 1)) (text : Text) :
    length? (toUtf8 (c :: text)) = (length? text.toUtf8).map (· + c.utf8Size) := by
  rw [toUtf8_cons, length?_append h, String.length_utf8EncodeChar]

theorem commentLength?_toUtf8 (text : Text) :
    commentLength? text.toUtf8 = (Scan.commentLength? text).map (bytesOf text) := by
  fun_induction Scan.commentLength? text with
  | case1 => rw [toUtf8_nil]; rfl
  | case2 text =>
      rw [toUtf8_cons_of_lt (by decide), toUtf8_cons_of_lt (by decide)]
      rfl
  | case3 c text hopen ih =>
      rw [map_bytesOf_succ, ← ih]
      by_cases hc : c = '*'
      · subst hc
        have hnext : text.head? ≠ some '/' := fun hhead => by
          obtain ⟨rest, rfl⟩ := List.head?_eq_some_iff.mp hhead
          exact hopen rest rfl rfl
        rw [toUtf8_cons_of_lt (by decide), commentLength?, if_neg]
        · rfl
        · rw [head?_toUtf8 (by decide)]
          exact fun hboth => hnext hboth.2
      · refine length?_toUtf8_cons (fun byte hbyte bytes => if_neg fun hboth => ?_) text
        exact ne_toUInt8 (by decide) hc hbyte hboth.1

theorem quotedLength?_cons {quote : UInt8} (hescape : byte ≠ '\\'.toUInt8) (hquote : byte ≠ quote)
    (hfeed : byte ≠ '\n'.toUInt8) (bytes : List UInt8) :
    quotedLength? quote (byte :: bytes) = (quotedLength? quote bytes).map (· + 1) := by
  rw [quotedLength?, if_neg hescape, if_neg hquote, if_neg hfeed]

/-- A backslash, with or without a character behind it, is met earlier. -/
theorem ne_backslash (hlast : c = '\\' → text = [] → False)
    (hescape : ∀ d rest, c = '\\' → text = d :: rest → False) : c ≠ '\\' := by
  intro hc
  cases text with
  | nil => exact hlast hc rfl
  | cons d rest => exact hescape d rest hc rfl

theorem quotedLength?_toUtf8 {quote : Char} (hquote : quote.toNat < 0x80) (text : Text) :
    quotedLength? quote.toUInt8 text.toUtf8 = (Scan.quotedLength? quote text).map (bytesOf text) := by
  fun_induction Scan.quotedLength? quote text with
  | case1 => rw [toUtf8_nil, quotedLength?]; rfl
  | case2 =>
      rw [toUtf8_cons_of_lt (by decide), toUtf8_nil, quotedLength?, if_pos rfl, List.drop_nil,
        quotedLength?]
      rfl
  | case3 c text ih =>
      obtain ⟨byte, bytes, hbytes⟩ := exists_utf8EncodeChar_cons c
      have hhigh := high_of_mem_tail hbytes
      have hwidth : bytes.length + 1 = c.utf8Size := by
        rw [← String.length_utf8EncodeChar, hbytes, List.length_cons]
      have hskip : quotedLength? quote.toUInt8 (bytes ++ toUtf8 text) =
          (quotedLength? quote.toUInt8 (toUtf8 text)).map (· + bytes.length) := by
        refine length?_append (fun byte hbyte => ?_) (toUtf8 text)
        have hne (m : Char) (hmark : m.toNat < 0x80) := ne_toUInt8_of_high hmark (hhigh byte hbyte)
        exact quotedLength?_cons (hne '\\' (by decide)) (hne quote hquote) (hne '\n' (by decide))
      rw [toUtf8_cons_of_lt (by decide), quotedLength?, if_pos rfl, toUtf8_cons, hbytes,
        List.cons_append, List.drop_one, List.tail_cons, hskip, ih, Option.map_map, Option.map_map,
        Option.map_map]
      refine congrArg (Option.map · _) (funext fun n => ?_)
      have hback : ('\\' : Char).utf8Size = 1 := rfl
      rw [Function.comp_apply, Function.comp_apply, Function.comp_apply, bytesOf_succ, bytesOf_succ]
      omega
  | case4 text hlast hescape =>
      have hback := ne_toUInt8 (by decide) (ne_backslash hlast hescape) (toUInt8_mem hquote)
      rw [toUtf8_cons_of_lt hquote, quotedLength?, if_neg hback, if_pos rfl]
      exact congrArg some (utf8Size_of_lt hquote).symm
  | case5 text hlast hescape hne =>
      have hclose := ne_toUInt8 hquote hne (toUInt8_mem (by decide))
      rw [toUtf8_cons_of_lt (by decide), quotedLength?, if_neg (by decide), if_neg hclose, if_pos rfl]
      rfl
  | case6 c text hlast hescape hne hfeed ih =>
      rw [map_bytesOf_succ, ← ih]
      refine length?_toUtf8_cons (fun byte hbyte => quotedLength?_cons ?_ ?_ ?_) text
      · exact ne_toUInt8 (by decide) (ne_backslash hlast hescape) hbyte
      · exact ne_toUInt8 hquote hne hbyte
      · exact ne_toUInt8 (by decide) hfeed hbyte

theorem verbatimLength?_toUtf8 (text : Text) :
    verbatimLength? text.toUtf8 = (Scan.verbatimLength? text).map (bytesOf text) := by
  fun_induction Scan.verbatimLength? text with
  | case1 => rw [toUtf8_nil, verbatimLength?]; rfl
  | case2 text ih =>
      rw [toUtf8_cons_of_lt (by decide), toUtf8_cons_of_lt (by decide), verbatimLength?, if_pos rfl,
        if_pos List.head?_cons, List.drop_one, List.tail_cons, ih, Option.map_map, Option.map_map]
      refine congrArg (Option.map · _) (funext fun n => ?_)
      exact ((bytesOf_succ '"' ('"' :: text) (n + 1)).trans
        (congrArg (· + 1) (bytesOf_succ '"' text n))).symm
  | case3 text hdouble =>
      have hnext : text.head? ≠ some '"' := fun hhead => by
        obtain ⟨rest, rfl⟩ := List.head?_eq_some_iff.mp hhead
        exact hdouble rest rfl
      rw [toUtf8_cons_of_lt (by decide), verbatimLength?, if_pos rfl,
        if_neg (mt (head?_toUtf8 (by decide) text).mp hnext)]
      rfl
  | case4 c text hdouble hclose ih =>
      rw [map_bytesOf_succ, ← ih]
      refine length?_toUtf8_cons (fun byte hbyte bytes => ?_) text
      rw [verbatimLength?, if_neg (ne_toUInt8 (by decide) hclose hbyte)]

theorem size_takeWhile_quote (text : Text) :
    size (text.takeWhile (· == '"')) = Scan.quoteRun text := by
  refine size_of_forall_lt fun d hd => ?_
  have hquote : d = '"' := beq_iff_eq.mp (List.all_eq_true.mp List.all_takeWhile d hd)
  rw [hquote]
  decide

theorem quoteRun_toUtf8 (text : Text) : quoteRun text.toUtf8 = Scan.quoteRun text := by
  rw [quoteRun, takeWhile_toUtf8 (agree_mark (by decide)), length_toUtf8, size_takeWhile_quote]

theorem bytesOf_quoteRun (text : Text) : bytesOf text (Scan.quoteRun text) = Scan.quoteRun text :=
  (bytesOf_takeWhile _ text).trans (size_takeWhile_quote text)

theorem fencedLength?_cons {fence : Nat} (hfence : 1 ≤ fence) (hquote : byte ≠ '"'.toUInt8)
    (bytes : List UInt8) :
    fencedLength? fence (byte :: bytes) = (fencedLength? fence bytes).map (· + 1) := by
  have hrun : quoteRun (byte :: bytes) = 0 := by
    rw [quoteRun, List.takeWhile_cons_of_neg (by simpa using hquote), List.length_nil]
  rw [fencedLength?, hrun, if_neg (by omega)]

theorem fencedLength?_of_le {fence : Nat} {bytes : List UInt8} (hfence : 1 ≤ fence)
    (h : fence ≤ quoteRun bytes) : fencedLength? fence bytes = some (quoteRun bytes) := by
  cases bytes with
  | nil => exact absurd (Nat.le_trans hfence h) (Nat.not_succ_le_zero 0)
  | cons byte bytes => exact if_pos h

theorem fencedLength?_toUtf8 {fence : Nat} (hfence : 1 ≤ fence) (text : Text) :
    fencedLength? fence text.toUtf8 = (Scan.fencedLength? fence text).map (bytesOf text) := by
  fun_induction Scan.fencedLength? fence text with
  | case1 => rw [toUtf8_nil]; rfl
  | case2 c text run hle =>
      rw [fencedLength?_of_le hfence (by rw [quoteRun_toUtf8]; exact hle), quoteRun_toUtf8]
      exact congrArg some (bytesOf_quoteRun (c :: text)).symm
  | case3 c text run hlt ih =>
      rw [map_bytesOf_succ, ← ih]
      by_cases hc : c = '"'
      · subst hc
        have hrun : quoteRun ('"'.toUInt8 :: toUtf8 text) = run := by
          rw [← toUtf8_cons_of_lt (by decide), quoteRun_toUtf8]
        rw [toUtf8_cons_of_lt (by decide), fencedLength?, hrun, if_neg hlt]
        rfl
      · refine length?_toUtf8_cons (fun byte hbyte => ?_) text
        exact fencedLength?_cons hfence (ne_toUInt8 (by decide) hc hbyte)

theorem stringLength_toUtf8 (text : Text) :
    stringLength (toUtf8 ('"' :: text)) =
      (Scan.stringLength ('"' :: text)).map (bytesOf ('"' :: text)) := by
  have hdrop := drop_toUtf8 (Scan.quoteRun ('"' :: text)) ('"' :: text)
  rw [bytesOf_quoteRun] at hdrop
  unfold stringLength Scan.stringLength
  simp only [quoteRun_toUtf8, hdrop]
  by_cases hraw : 3 ≤ Scan.quoteRun ('"' :: text)
  · rw [if_pos hraw, if_pos hraw, fencedLength?_toUtf8 (by omega)]
    cases Scan.fencedLength? (Scan.quoteRun ('"' :: text))
        (('"' :: text).drop (Scan.quoteRun ('"' :: text))) with
    | none => rfl
    | some length =>
        have hadd := bytesOf_add ('"' :: text) (Scan.quoteRun ('"' :: text)) length
        rw [bytesOf_quoteRun] at hadd
        exact congrArg Except.ok hadd.symm
  · rw [if_neg hraw, if_neg hraw, toUtf8_cons_of_lt (by decide), List.drop_one, List.tail_cons,
      List.drop_one, List.tail_cons, quotedLength?_toUtf8 (by decide)]
    cases Scan.quotedLength? '"' text with
    | none => rfl
    | some length => exact congrArg Except.ok (bytesOf_add ('"' :: text) 1 length).symm

theorem agree_isMark : Agree isMark Scan.isMark := by
  intro c byte hbyte
  have hat : (byte == '@'.toUInt8) = (c == '@') := agree_mark (by decide) c byte hbyte
  have hdollar : (byte == '$'.toUInt8) = (c == '$') := agree_mark (by decide) c byte hbyte
  rw [isMark, Scan.isMark, hat, hdollar]

theorem markedStringLength_toUtf8 {text : Text} (hopens : Scan.opensMarkedString text = true) :
    markedStringLength text.toUtf8 = (Scan.markedStringLength text).map (bytesOf text) := by
  obtain ⟨marks, rest, -, hmarks, rfl⟩ := Scan.exists_marks_of_opens hopens
  have hall : ∀ d ∈ marks, d.toNat < 0x80 := fun d hd => by
    have hmark := List.all_eq_true.mp hmarks d hd
    rw [Scan.isMark, Bool.or_eq_true, beq_iff_eq, beq_iff_eq] at hmark
    rcases hmark with rfl | rfl <;> decide
  have hsize := size_of_forall_lt hall
  have htake : (toUtf8 (marks ++ '"' :: rest)).takeWhile isMark = toUtf8 marks := by
    rw [takeWhile_toUtf8 agree_isMark, Scan.takeWhile_isMark hmarks]
  have hdrop : (toUtf8 (marks ++ '"' :: rest)).drop marks.length = toUtf8 ('"' :: rest) := by
    rw [toUtf8_append, ← hsize, ← length_toUtf8, List.drop_left]
  have hat : (toUtf8 marks).contains '@'.toUInt8 = marks.contains '@' := by
    rw [Bool.eq_iff_iff, List.contains_iff_mem, List.contains_iff_mem, mem_toUtf8 (by decide)]
  have hwhole : ∀ n, bytesOf (marks ++ '"' :: rest) (marks.length + n) =
      marks.length + bytesOf ('"' :: rest) n := fun n => by rw [bytesOf_append, hsize]
  rw [Scan.markedStringLength_append hmarks]
  unfold markedStringLength
  simp only [htake, length_toUtf8, hsize, hdrop, hat]
  split
  · rw [toUtf8_cons_of_lt (by decide), List.drop_one, List.tail_cons, verbatimLength?_toUtf8]
    cases Scan.verbatimLength? rest with
    | none => rfl
    | some length =>
        refine congrArg Except.ok ?_
        rw [Nat.add_assoc marks.length 1 length, hwhole, bytesOf_add, Nat.add_assoc]
        rfl
  · rw [stringLength_toUtf8]
    cases Scan.stringLength ('"' :: rest) with
    | error fault => rfl
    | ok length => exact congrArg Except.ok (hwhole length).symm

theorem opensMarkedString_of_isMark_eq_false (h : isMark byte = false) (bytes : List UInt8) :
    opensMarkedString (byte :: bytes) = false := by
  have hdollar : (byte == '$'.toUInt8) = false := by
    rw [isMark, Bool.or_eq_false_iff] at h
    exact h.2
  cases bytes with
  | nil => rfl
  | cons second bytes => simp [opensMarkedString, h, hdollar]

/-- Unless the second byte is a quote or a mark, nothing is opened. -/
theorem opensMarkedString_of_ne {second : UInt8} (hquote : second ≠ '"'.toUInt8)
    (hat : second ≠ '@'.toUInt8) (hdollar : second ≠ '$'.toUInt8) (first : UInt8)
    (bytes : List UInt8) : opensMarkedString (first :: second :: bytes) = false := by
  simp [opensMarkedString, isMark, beq_eq_false_iff_ne.mpr hquote, beq_eq_false_iff_ne.mpr hat,
    beq_eq_false_iff_ne.mpr hdollar]

theorem opensMarkedString_at (bytes : List UInt8) :
    opensMarkedString ('@'.toUInt8 :: bytes) =
      (bytes.head? == some '"'.toUInt8 ||
        bytes.head? == some '$'.toUInt8 && bytes.tail.head? == some '"'.toUInt8) := by
  cases bytes with
  | nil => rfl
  | cons second bytes =>
      by_cases hquote : second = '"'.toUInt8
      · rw [hquote]
        rfl
      by_cases hdollar : second = '$'.toUInt8
      · rw [hdollar]
        rfl
      by_cases hat : second = '@'.toUInt8
      · rw [hat]
        rfl
      rw [opensMarkedString_of_ne hquote hat hdollar]
      simp [hquote, hdollar]

theorem opensMarkedString_dollar (bytes : List UInt8) :
    opensMarkedString ('$'.toUInt8 :: bytes) =
      (bytes.head? == some '@'.toUInt8 && bytes.tail.head? == some '"'.toUInt8 ||
        (bytes.dropWhile (· == '$'.toUInt8)).head? == some '"'.toUInt8) := by
  cases bytes with
  | nil => rfl
  | cons second bytes =>
      by_cases hquote : second = '"'.toUInt8
      · rw [hquote]
        rfl
      by_cases hdollar : second = '$'.toUInt8
      · rw [hdollar]
        rfl
      by_cases hat : second = '@'.toUInt8
      · rw [hat]
        exact (Bool.or_false _).symm
      rw [opensMarkedString_of_ne hquote hat hdollar,
        List.dropWhile_cons_of_neg (by simpa using hdollar)]
      simp [hquote, hat]

theorem opensMarkedString_toUtf8 (text : Text) :
    opensMarkedString text.toUtf8 = Scan.opensMarkedString text := by
  cases text with
  | nil => rw [toUtf8_nil]; rfl
  | cons c text =>
      by_cases hat : c = '@'
      · subst hat
        rw [toUtf8_cons_of_lt (by decide), opensMarkedString_at, Scan.opensMarkedString_at,
          head?_beq_toUtf8 (by decide), head?_tail_toUtf8 (by decide) (by decide)]
      by_cases hdollar : c = '$'
      · subst hdollar
        rw [toUtf8_cons_of_lt (by decide), opensMarkedString_dollar, Scan.opensMarkedString_dollar,
          head?_tail_toUtf8 (by decide) (by decide), dropWhile_toUtf8 (agree_mark (by decide)),
          head?_beq_toUtf8 (by decide)]
      obtain ⟨byte, bytes, hbytes⟩ := exists_utf8EncodeChar_cons c
      have hmark : isMark byte = false := by
        rw [agree_isMark c byte (hbytes ▸ List.mem_cons_self), Scan.isMark,
          beq_eq_false_iff_ne.mpr hat, beq_eq_false_iff_ne.mpr hdollar, Bool.or_false]
      rw [Scan.opensMarkedString_of_ne hat hdollar, toUtf8_cons, hbytes, List.cons_append,
        opensMarkedString_of_isMark_eq_false hmark]

theorem identifierLength_toUtf8 (text : Text) :
    identifierLength text.toUtf8 = bytesOf text (Scan.identifierLength text) := by
  rw [identifierLength, takeWhile_toUtf8 agree_identifier, length_toUtf8]
  exact (bytesOf_takeWhile Scan.isIdentifierChar text).symm

theorem isNumber_eq (hbyte : byte ∈ String.utf8EncodeChar c) :
    (isAlphanumeric byte || byte == '_'.toUInt8 || byte == '.'.toUInt8) =
      (c.isAlphanum || c == '_' || c == '.') := by
  have hunder : (byte == '_'.toUInt8) = (c == '_') := agree_mark (by decide) c byte hbyte
  have hdot : (byte == '.'.toUInt8) = (c == '.') := agree_mark (by decide) c byte hbyte
  rw [agree_alphanumeric c byte hbyte, hunder, hdot]

/-- Numbers go on with ASCII characters only. -/
theorem lt_of_number (h : (c.isAlphanum || c == '_' || c == '.') = true) : c.toNat < 0x80 := by
  rw [Bool.or_eq_true, Bool.or_eq_true, beq_iff_eq, beq_iff_eq] at h
  rcases h with (halphanum | rfl) | rfl
  · rw [Char.isAlphanum, Bool.or_eq_true, isAlpha_iff] at halphanum
    simp [Char.isDigit, UInt32.le_iff_toNat_le] at halphanum
    omega
  · decide
  · decide

theorem numberLength_toUtf8 (text : Text) :
    numberLength text.toUtf8 = bytesOf text (Scan.numberLength text) := by
  induction text with
  | nil => rw [toUtf8_nil]; rfl
  | cons c text ih =>
      by_cases hrange : c = '.' ∧ text.head? = some '.'
      · obtain ⟨rfl, hnext⟩ := hrange
        obtain ⟨rest, rfl⟩ := List.head?_eq_some_iff.mp hnext
        rw [toUtf8_cons_of_lt (by decide), toUtf8_cons_of_lt (by decide)]
        rfl
      rw [Scan.numberLength_cons hrange]
      cases hgoes : c.isAlphanum || c == '_' || c == '.' with
      | true =>
          have hlt := lt_of_number hgoes
          have htest := isNumber_eq (toUInt8_mem hlt)
          have hrange' : ¬(c.toUInt8 = '.'.toUInt8 ∧ (toUtf8 text).head? = some '.'.toUInt8) := by
            rwa [eq_toUInt8_iff (by decide) (toUInt8_mem hlt), head?_toUtf8 (by decide)]
          rw [if_pos rfl, bytesOf_succ, utf8Size_of_lt hlt, toUtf8_cons_of_lt hlt, numberLength,
            if_neg hrange', if_pos (htest.trans hgoes), ih]
      | false =>
          obtain ⟨byte, bytes, hbytes⟩ := exists_utf8EncodeChar_cons c
          have htest := isNumber_eq (c := c) (hbytes ▸ List.mem_cons_self)
          rw [hgoes] at htest
          have hdot : byte ≠ '.'.toUInt8 := by
            rintro rfl
            cases htest
          rw [if_neg Bool.false_ne_true, toUtf8_cons, hbytes, List.cons_append, numberLength,
            if_neg fun hboth => hdot hboth.1, htest, if_neg Bool.false_ne_true]
          rfl

/-! ## Tokens -/

/-- What the scanners of bytes and of characters find at the head of the same text. A carriage return
at the end of a line is taken with it by the first only. -/
inductive Fits (c : Char) (text : Text) :
    Except ScanFault Head → Except ScanFault (TokenKind × Nat) → Prop
  | error (fault : ScanFault) : Fits c text (.error fault) (.error fault)
  | whole {kind : TokenKind} {length n : Nat} (h : length = bytesOf (c :: text) (n + 1)) :
      Fits c text (.ok (.whole kind length)) (.ok (kind, n))
  | line {kind : TokenKind} {length n : Nat} (h : length = bytesOf (c :: text) (n + 1))
      (hreturn : (text.drop n).head? = some '\r') :
      Fits c text (.ok ⟨kind, length, length + 1⟩) (.ok (kind, n))

theorem getLast?_cons_eq_some_iff (hc : c ≠ m) (text : Text) :
    (c :: text).getLast? = some m ↔ text.getLast? = some m := by
  cases text with
  | nil => exact iff_of_false (fun hlast => hc (Option.some.inj hlast)) nofun
  | cons d text => rw [List.getLast?_cons_cons]

theorem fits_lineHead (hfeed : c ≠ '\n') (hreturn : c ≠ '\r') (kind : TokenKind) (text : Text) :
    Fits c text (.ok (lineHead kind (toUtf8 (c :: text)))) (.ok (kind, Scan.lineLength text)) := by
  have hagree : Agree (· != '\n'.toUInt8) (fun d => decide (d ≠ '\n')) := fun d byte hbyte => by
    rw [Bool.eq_iff_iff, bne_iff_ne, decide_eq_true_eq, Ne, Ne, eq_toUInt8_iff (by decide) hbyte]
  have hline : (toUtf8 (c :: text)).takeWhile (· != '\n'.toUInt8) =
      toUtf8 (c :: text.takeWhile fun d => decide (d ≠ '\n')) := by
    rw [takeWhile_toUtf8 hagree, List.takeWhile_cons_of_pos (by simpa using hfeed)]
  have hcut := List.takeWhile_append_dropWhile (p := fun d => decide (d ≠ '\n')) (l := text)
  unfold lineHead Scan.lineLength
  simp only [hline, length_toUtf8, getLast?_toUtf8 (m := '\r') (by decide),
    getLast?_cons_eq_some_iff hreturn]
  generalize text.takeWhile (fun d => decide (d ≠ '\n')) = line at hcut ⊢
  generalize text.dropWhile (fun d => decide (d ≠ '\n')) = rest at hcut
  subst hcut
  split
  · next hlast =>
      obtain ⟨front, rfl⟩ := List.getLast?_eq_some_iff.mp hlast
      have hsize : size (c :: (front ++ ['\r'])) = size (c :: front) + 1 :=
        size_append (c :: front) ['\r']
      rw [hsize, Nat.add_sub_cancel, List.length_append, List.length_singleton, Nat.add_sub_cancel]
      refine .line ?_ ?_
      · rw [List.append_assoc, bytesOf_length_succ]
      · rw [List.append_assoc, List.drop_left]
        rfl
  · exact .whole (bytesOf_length_succ c line rest).symm

theorem fits_string (found : Except ScanFault Nat) : (∀ whole, found = .ok whole → 1 ≤ whole) →
    Fits c text ((found.map (bytesOf (c :: text))).map (Head.whole .string))
      (match found with
      | .ok length => .ok (.string, length - 1)
      | .error fault => .error fault) := by
  intro hpos
  cases found with
  | error fault => exact .error fault
  | ok whole => exact .whole (by rw [Nat.sub_add_cancel (hpos whole rfl)])

theorem fits_ite {p : Prop} [Decidable p] {first second : Except ScanFault Head}
    {first' second' : Except ScanFault (TokenKind × Nat)} (hthen : p → Fits c text first first')
    (helse : ¬p → Fits c text second second') :
    Fits c text (if p then first else second) (if p then first' else second') := by
  split
  · next h => exact hthen h
  · next h => exact helse h

theorem fits_comment (hslash : c.toNat < 0x80) (hnext : text.head? = some '*') :
    Fits c text
      (match commentLength? (text.toUtf8.drop 1) with
      | some length => .ok (.whole .blockComment (2 + length))
      | none => .error .blockComment)
      (match Scan.commentLength? (text.drop 1) with
      | some length => .ok (.blockComment, 1 + length)
      | none => .error .blockComment) := by
  obtain ⟨rest, rfl⟩ := List.head?_eq_some_iff.mp hnext
  rw [toUtf8_cons_of_lt (by decide), List.drop_one, List.tail_cons, List.drop_one, List.tail_cons,
    commentLength?_toUtf8]
  cases Scan.commentLength? rest with
  | none => exact .error .blockComment
  | some length =>
      refine .whole ?_
      rw [bytesOf_succ_of_lt hslash, Nat.add_comm 1 length, bytesOf_succ_of_lt (by decide),
        ← Nat.add_assoc]

/-- What begins with neither a digit nor anything longer is a word or a mark. -/
theorem fits_word (h : c.toNat < 0x80) :
    Fits c text
      (if c == '@' && text.head?.any Scan.isIdentifierChar then
        .ok (.whole .identifier (1 + identifierLength text.toUtf8))
      else if Scan.isIdentifierChar c then
        .ok (.whole .identifier (identifierLength (toUtf8 (c :: text))))
      else if c == ':' && text.head? == some ':' then .ok (.whole .doubleColon 2)
      else .ok (.whole (.punctuation (Char.ofUInt8 c.toUInt8)) 1))
      (if Scan.isIdentifierChar c || (c == '@' && text.head?.any Scan.isIdentifierChar) then
        .ok (.identifier, Scan.identifierLength text)
      else if c == ':' && text.head? == some ':' then .ok (.doubleColon, 1)
      else .ok (.punctuation c, 0)) := by
  cases hescape : c == '@' && text.head?.any Scan.isIdentifierChar with
  | true =>
      rw [if_pos rfl, Bool.or_true, if_pos rfl, identifierLength_toUtf8]
      exact .whole (bytesOf_succ_of_lt h text _).symm
  | false =>
      rw [if_neg Bool.false_ne_true, Bool.or_false]
      refine fits_ite (fun hword => ?_) fun _ => fits_ite (fun hcolon => ?_) fun _ => ?_
      · rw [identifierLength_toUtf8]
        refine .whole (congrArg (bytesOf (c :: text)) ?_)
        rw [Scan.identifierLength, List.takeWhile_cons_of_pos hword, List.length_cons]
        rfl
      · obtain ⟨-, hnext⟩ : c = ':' ∧ text.head? = some ':' := by simpa using hcolon
        obtain ⟨rest, rfl⟩ := List.head?_eq_some_iff.mp hnext
        refine .whole ?_
        rw [bytesOf_succ_of_lt h, bytesOf_succ_of_lt (by decide)]
        rfl
      · have hbyte : Char.ofUInt8 c.toUInt8 = c := by
          rw [← Char.toNat_inj, ← toNat_toUInt8 h]
          rfl
        rw [hbyte]
        exact .whole (bytesOf_succ_of_lt h text 0).symm

theorem fits_head_of_lt (h : c.toNat < 0x80) (lineStart : Bool) :
    Fits c text (head lineStart c.toUInt8 text.toUtf8) (Scan.head lineStart c text) := by
  have htest : ∀ m : Char, m.toNat < 0x80 → (c.toUInt8 == m.toUInt8) = (c == m) :=
    fun m hmark => agree_mark hmark c c.toUInt8 (toUInt8_mem h)
  have hdigit : isDigit c.toUInt8 = c.isDigit := agree_digit c c.toUInt8 (toUInt8_mem h)
  have hword : isIdentifierByte c.toUInt8 = Scan.isIdentifierChar c :=
    agree_identifier c c.toUInt8 (toUInt8_mem h)
  unfold head Scan.head
  simp only [htest '#' (by decide), htest '/' (by decide), htest '"' (by decide),
    htest '\'' (by decide), htest '@' (by decide), htest ':' (by decide), hdigit, hword,
    head?_beq_toUtf8 (m := '/') (by decide), head?_beq_toUtf8 (m := '*') (by decide),
    head?_beq_toUtf8 (m := ':') (by decide), head?_any_toUtf8 agree_identifier,
    ← toUtf8_cons_of_lt h, opensMarkedString_toUtf8]
  -- both ask the same questions in the same order
  refine fits_ite (fun hopens => ?_) fun _ => fits_ite (fun hopens => ?_) fun _ =>
    fits_ite (fun hopens => ?_) fun _ => fits_ite (fun hquote => ?_) fun _ =>
    fits_ite (fun hopens => ?_) fun _ => fits_ite (fun _ => ?_) fun _ =>
    fits_ite (fun _ => ?_) fun _ => fits_word h
  · obtain ⟨rfl, -⟩ : c = '#' ∧ lineStart = true := by simpa using hopens
    exact fits_lineHead (by decide) (by decide) .preprocessor text
  · obtain ⟨rfl, -⟩ : c = '/' ∧ text.head? = some '/' := by simpa using hopens
    exact fits_lineHead (by decide) (by decide) .lineComment text
  · obtain ⟨-, hnext⟩ : c = '/' ∧ text.head? = some '*' := by simpa using hopens
    exact fits_comment h hnext
  · obtain rfl : c = '"' := by simpa using hquote
    rw [stringLength_toUtf8]
    exact fits_string _ fun whole hwhole => (Scan.stringLength_le hwhole (List.cons_ne_nil _ _)).1
  · rw [markedStringLength_toUtf8 hopens]
    exact fits_string _ fun whole hwhole => (Scan.markedStringLength_le hwhole hopens).1
  · rw [quotedLength?_toUtf8 (by decide)]
    cases Scan.quotedLength? '\'' text with
    | none => exact .error .character
    | some length => exact .whole (bytesOf_succ_of_lt h text length).symm
  · rw [numberLength_toUtf8]
    exact .whole (bytesOf_succ_of_lt h text _).symm

theorem head_of_high (h : 0x80 ≤ byte.toNat) (lineStart : Bool) (bytes : List UInt8) :
    head lineStart byte bytes = .ok (.whole .identifier (identifierLength (byte :: bytes))) := by
  have hne : ∀ m : Char, m.toNat < 0x80 → (byte == m.toUInt8) = false := fun m hmark =>
    beq_eq_false_iff_ne.mpr (ne_toUInt8_of_high hmark h)
  have hmark : isMark byte = false := by
    rw [isMark, hne '@' (by decide), hne '$' (by decide), Bool.or_false]
  have hdigit : isDigit byte = false := by
    simp [isDigit, UInt8.le_iff_toNat_le]
    omega
  have hword : isIdentifierByte byte = true := by
    simp [isIdentifierByte, UInt8.le_iff_toNat_le, h]
  simp only [head, hne '#' (by decide), hne '/' (by decide), hne '"' (by decide), hne '\'' (by decide),
    hne '@' (by decide), opensMarkedString_of_isMark_eq_false hmark, hdigit, hword, Bool.false_and,
    Bool.false_eq_true, if_false, if_true]

theorem fits_head_of_high (h : 0x80 ≤ c.toNat) (lineStart : Bool) {bytes : List UInt8}
    (hbytes : toUtf8 (c :: text) = byte :: bytes) (hbyte : byte ∈ String.utf8EncodeChar c) :
    Fits c text (head lineStart byte bytes) (Scan.head lineStart c text) := by
  have hhigh := high_of_mem_utf8EncodeChar h byte hbyte
  have hword : Scan.isIdentifierChar c = true := by
    rw [← agree_identifier c byte hbyte]
    simp [isIdentifierByte, UInt8.le_iff_toNat_le, hhigh]
  have hdigit : c.isDigit = false := by
    rw [← agree_digit c byte hbyte]
    simp [isDigit, UInt8.le_iff_toNat_le]
    omega
  rw [head_of_high hhigh, ← hbytes, identifierLength_toUtf8, Scan.head_of_word hword, hdigit]
  refine .whole (congrArg (bytesOf (c :: text)) ?_)
  rw [Scan.identifierLength, List.takeWhile_cons_of_pos hword, List.length_cons]
  rfl

theorem fits_head (lineStart : Bool) {bytes : List UInt8}
    (hbytes : toUtf8 (c :: text) = byte :: bytes) :
    Fits c text (head lineStart byte bytes) (Scan.head lineStart c text) := by
  rcases Nat.lt_or_ge c.toNat 0x80 with hc | hc
  · rw [toUtf8_cons_of_lt hc] at hbytes
    obtain ⟨rfl, rfl⟩ := List.cons.inj hbytes
    exact fits_head_of_lt hc lineStart
  · exact fits_head_of_high hc lineStart hbytes (mem_of_toUtf8_cons hbytes)

theorem isBlank_eq (hbyte : byte ∈ String.utf8EncodeChar c) :
    (byte == '\n'.toUInt8 || isBlank byte) = Scan.isBlank c := by
  have hmark : ∀ m : Char, m.toNat < 0x80 → (byte == m.toUInt8) = (c == m) :=
    fun m hmark => agree_mark hmark c byte hbyte
  have htab : (byte == 0x0b) = (c == '\x0b') := hmark '\x0b' (by decide)
  have hform : (byte == 0x0c) = (c == '\x0c') := hmark '\x0c' (by decide)
  rw [isBlank, Scan.isBlank, hmark '\n' (by decide), hmark ' ' (by decide), hmark '\t' (by decide),
    hmark '\r' (by decide), htab, hform]
  cases c == '\n' <;> simp

theorem tokens_blank (h : Scan.isBlank c = true) (offset : Nat) (lineStart : Bool) (text : Text) :
    tokens offset lineStart (toUtf8 (c :: text)) =
      tokens (offset + c.utf8Size) (lineStart || c == '\n') text.toUtf8 := by
  have hlt : c.toNat < 0x80 := by
    simp only [Scan.isBlank, Bool.or_eq_true, beq_iff_eq] at h
    rcases h with ((((rfl | rfl) | rfl) | rfl) | rfl) | rfl <;> decide
  have hblank := isBlank_eq (toUInt8_mem hlt)
  have hfeed := eq_toUInt8_iff (m := '\n') (by decide) (toUInt8_mem hlt)
  rw [toUtf8_cons_of_lt hlt, utf8Size_of_lt hlt, tokens]
  by_cases hc : c = '\n'
  · rw [if_pos (hfeed.mpr hc), hc, beq_self_eq_true, Bool.or_true]
  · have hne := mt hfeed.mp hc
    rw [h, beq_eq_false_iff_ne.mpr hne, Bool.false_or] at hblank
    rw [if_neg hne, if_pos hblank, beq_eq_false_iff_ne.mpr hc, Bool.or_false]

theorem tokens_cons {bytes : List UInt8} (hblank : Scan.isBlank c = false)
    (hbyte : byte ∈ String.utf8EncodeChar c) (offset : Nat) (lineStart : Bool) :
    tokens offset lineStart (byte :: bytes) =
      match head lineStart byte bytes with
      | .error fault => .error ⟨fault, offset⟩
      | .ok found =>
          match tokens (offset + found.taken) false (bytes.drop (found.taken - 1)) with
          | .error error => .error error
          | .ok rest => .ok ((found.kind, ⟨offset, offset + found.length⟩) :: rest) := by
  have hneither := isBlank_eq hbyte
  rw [hblank, Bool.or_eq_false_iff, beq_eq_false_iff_ne] at hneither
  rw [tokens, if_neg hneither.1, hneither.2]
  exact if_neg Bool.false_ne_true

/-- Behind a token both scanners go on at the same place, the one of characters with a carriage return
that it takes for a blank. -/
theorem tokens_behind {found : Head} {kind : TokenKind} {n : Nat} {bytes : List UInt8}
    (h : Fits c text (.ok found) (.ok (kind, n))) (hbytes : toUtf8 (c :: text) = byte :: bytes)
    (offset : Nat) :
    tokens (offset + found.taken) false (bytes.drop (found.taken - 1)) =
      tokens (offset + bytesOf (c :: text) (n + 1)) false (toUtf8 (text.drop n)) := by
  have hpos : 1 ≤ bytesOf (c :: text) (n + 1) := by
    rw [bytesOf_succ]
    exact Nat.le_trans c.utf8Size_pos (Nat.le_add_left ..)
  have hdrop : bytes.drop (bytesOf (c :: text) (n + 1) - 1) = toUtf8 (text.drop n) := by
    have hwhole := drop_toUtf8 (n + 1) (c :: text)
    rwa [hbytes, ← Nat.sub_add_cancel hpos, List.drop_succ_cons, List.drop_succ_cons] at hwhole
  generalize hfound : Except.ok found = outcome at h
  cases h with
  | whole hlength =>
      cases hfound
      rw [Head.whole, hlength, hdrop]
  | line hlength hreturn =>
      cases hfound
      obtain ⟨rest, hrest⟩ := List.head?_eq_some_iff.mp hreturn
      rw [hrest, toUtf8_cons_of_lt (by decide)] at hdrop
      have hbehind : bytes.drop (bytesOf (c :: text) (n + 1)) = toUtf8 rest := by
        rw [← Nat.sub_add_cancel hpos, ← List.drop_drop, hdrop]
        rfl
      rw [hrest, toUtf8_cons_of_lt (by decide), tokens, if_neg (by decide), if_pos (by decide), hlength,
        Nat.add_sub_cancel, hbehind]
      rfl

theorem tokens_of_error (hblank : Scan.isBlank c = false) {lineStart : Bool} {fault : ScanFault}
    (h : Scan.head lineStart c text = .error fault) (offset : Nat) :
    tokens offset lineStart (toUtf8 (c :: text)) = .error ⟨fault, offset⟩ := by
  obtain ⟨byte, bytes, hbytes⟩ := exists_toUtf8_cons c text
  have hfits := fits_head lineStart hbytes
  rw [h] at hfits
  rw [hbytes, tokens_cons hblank (mem_of_toUtf8_cons hbytes)]
  generalize head lineStart byte bytes = found at hfits ⊢
  cases hfits
  rfl

theorem tokens_of_ok (hblank : Scan.isBlank c = false) {lineStart : Bool} {kind : TokenKind} {n : Nat}
    (h : Scan.head lineStart c text = .ok (kind, n)) (offset : Nat) :
    tokens offset lineStart (toUtf8 (c :: text)) =
      match tokens (offset + bytesOf (c :: text) (n + 1)) false (toUtf8 (text.drop n)) with
      | .error error => .error error
      | .ok rest => .ok ((kind, ⟨offset, offset + bytesOf (c :: text) (n + 1)⟩) :: rest) := by
  obtain ⟨byte, bytes, hbytes⟩ := exists_toUtf8_cons c text
  have hfits := fits_head lineStart hbytes
  rw [h] at hfits
  rw [hbytes, tokens_cons hblank (mem_of_toUtf8_cons hbytes)]
  cases hhead : head lineStart byte bytes with
  | error fault =>
      rw [hhead] at hfits
      cases hfits
  | ok found =>
      rw [hhead] at hfits
      have hplace : found.kind = kind ∧ found.length = bytesOf (c :: text) (n + 1) := by
        cases hfits with
        | whole hlength => exact ⟨rfl, hlength⟩
        | line hlength => exact ⟨rfl, hlength⟩
      dsimp only
      rw [tokens_behind hfits hbytes, hplace.1, hplace.2]

/-- What is said of a token by its kind and its place. -/
def place (token : Token) : TokenKind × Span := (token.kind, token.span)

/-- **Scanning by characters is scanning by bytes.** -/
theorem tokens_toUtf8 (offset : Nat) (lineStart : Bool) (text : Text) :
    tokens offset lineStart text.toUtf8 = (Scan.tokens offset lineStart text).map (List.map place) := by
  fun_induction Scan.tokens offset lineStart text with
  | case1 => rw [toUtf8_nil, tokens]; rfl
  | case2 offset lineStart c text hblank ih => rw [tokens_blank hblank, ih]
  | case3 offset lineStart c text hblank fault hhead =>
      rw [tokens_of_error (by simpa using hblank) hhead]
      rfl
  | case4 offset lineStart c text hblank kind length hhead lexeme error hrest ih =>
      have hwidth : bytesOf (c :: text) (length + 1) = size lexeme := rfl
      rw [tokens_of_ok (by simpa using hblank) hhead, hwidth, ih, hrest]
      rfl
  | case5 offset lineStart c text hblank kind length hhead lexeme rest hrest ih =>
      have hwidth : bytesOf (c :: text) (length + 1) = size lexeme := rfl
      rw [tokens_of_ok (by simpa using hblank) hhead, hwidth, ih, hrest]
      rfl

theorem isPrefixOf_toUtf8 (c : Char) (text : Text) :
    byteOrderMark.isPrefixOf (toUtf8 (c :: text)) = (c == CSharpTidy.byteOrderMark) := by
  have hmark : byteOrderMark = String.utf8EncodeChar CSharpTidy.byteOrderMark := by decide
  rw [Bool.eq_iff_iff, List.isPrefixOf_iff_prefix, beq_iff_eq, hmark, toUtf8_cons]
  constructor
  · rintro ⟨rest, hrest⟩
    exact (utf8EncodeChar_append_inj hrest).symm
  · rintro rfl
    exact List.prefix_append _ _

theorem tokenize_toUtf8 (text : Text) :
    tokenize text.toUtf8 = (CSharpTidy.tokenize text).map (List.map place) := by
  cases text with
  | nil =>
      rw [tokenize, toUtf8_nil, if_neg (by decide), tokens]
      rfl
  | cons c text =>
      rw [tokenize, isPrefixOf_toUtf8, CSharpTidy.tokenize]
      by_cases hc : c = CSharpTidy.byteOrderMark
      · have hbehind : (toUtf8 (c :: text)).drop byteOrderMark.length = toUtf8 text := by
          rw [hc]
          exact drop_toUtf8 1 (CSharpTidy.byteOrderMark :: text)
        rw [if_pos (by simpa using hc), if_pos hc, hbehind, tokens_toUtf8, hc]
        rfl
      · rw [if_neg (by simpa using hc), if_neg hc, tokens_toUtf8]

/-- **Tokens begin and end between characters**, and scanning fails between two, although the scanner of
bytes knows of none. -/
theorem isBoundary_of_tokenize (text : Text) :
    match tokenize text.toUtf8 with
    | .ok found => ∀ token ∈ found,
        text.isBoundary token.2.start = true ∧ text.isBoundary token.2.stop = true
    | .error error => text.isBoundary error.offset = true := by
  rw [tokenize_toUtf8]
  cases h : CSharpTidy.tokenize text with
  | ok tokens =>
      obtain ⟨mark, pieces, hcut, rfl⟩ := exists_cut_of_tokenize h
      rintro token hmem
      obtain ⟨found, hfound, rfl⟩ := List.mem_map.mp hmem
      exact hcut.tile.boundary found hfound
  | error error =>
      obtain ⟨before, c, rest, rfl, hoffset⟩ := exists_cut_of_tokenize_error h
      have hboundary := isBoundary_append before (c :: rest)
      rwa [← hoffset] at hboundary

end ByteScan

end CSharpTidy
