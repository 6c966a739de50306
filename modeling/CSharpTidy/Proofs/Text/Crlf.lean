import CSharpTidy.Proofs.Text.Rewrite

/-!
# Texts with carriage returns before their line feeds

`crlf` puts a carriage return in front of every line feed. It goes character by character, so it agrees
with cutting texts, and where a text has no line feeds it changes nothing. A text without carriage
returns comes back when they are dropped again.
-/

namespace CSharpTidy

namespace Text

variable {c mark : Char} {text first second : Text} {length start stop : Nat}

/-- A line feed as a carriage return and a line feed, and any other character as it is. -/
def crlfChar (c : Char) : Text := if c = '\n' then ['\r', '\n'] else [c]

/-- A text with a carriage return in front of every line feed. -/
def crlf (text : Text) : Text := text.flatMap crlfChar

/-- A text without its carriage returns. -/
def dropReturns (text : Text) : Text := text.flatMap fun c => if c = '\r' then [] else [c]

@[simp] theorem crlf_nil : crlf [] = [] := rfl

@[simp] theorem crlf_feed (text : Text) : crlf ('\n' :: text) = '\r' :: '\n' :: crlf text := rfl

theorem crlf_cons_of_ne (h : c ≠ '\n') (text : Text) : crlf (c :: text) = c :: crlf text := by
  rw [crlf, List.flatMap_cons, crlfChar, if_neg h]
  rfl

@[simp] theorem crlf_append (first second : Text) : crlf (first ++ second) = crlf first ++ crlf second :=
  List.flatMap_append

theorem crlf_eq_self (h : '\n' ∉ text) : crlf text = text := by
  induction text with
  | nil => rfl
  | cons c text ih =>
      obtain ⟨hc, htext⟩ := List.ne_and_not_mem_of_not_mem_cons h
      rw [crlf_cons_of_ne hc.symm, ih htext]

theorem crlf_eq_nil_iff : crlf text = [] ↔ text = [] := by
  cases text with
  | nil => simp
  | cons c text =>
      by_cases hc : c = '\n'
      · simp [hc]
      · simp [crlf_cons_of_ne hc]

theorem mem_crlf_iff (h : c ≠ '\r') : c ∈ crlf text ↔ c ∈ text := by
  induction text with
  | nil => rfl
  | cons d text ih =>
      by_cases hd : d = '\n'
      · simp [hd, ih, h]
      · simp [crlf_cons_of_ne hd, ih]

theorem head?_crlf_iff (hreturn : mark ≠ '\r') (hfeed : mark ≠ '\n') :
    (crlf text).head? = some mark ↔ text.head? = some mark := by
  cases text with
  | nil => rfl
  | cons c text =>
      by_cases hc : c = '\n'
      · simp [hc, hreturn.symm, hfeed.symm]
      · rw [crlf_cons_of_ne hc]
        rfl

theorem getLast?_crlf_iff : (crlf text).getLast? = some c ↔ text.getLast? = some c := by
  rcases List.eq_nil_or_concat text with rfl | ⟨front, last, rfl⟩
  · rfl
  · by_cases hlast : last = '\n'
    · simp [hlast]
    · rw [List.concat_eq_append, crlf_append, crlf_cons_of_ne hlast, crlf_nil,
        List.getLast?_concat, List.getLast?_concat]

theorem dropReturns_crlf (h : '\r' ∉ text) : dropReturns (crlf text) = text := by
  induction text with
  | nil => rfl
  | cons c text ih =>
      obtain ⟨hc, htext⟩ := List.ne_and_not_mem_of_not_mem_cons h
      have hrest := ih htext
      rw [dropReturns] at hrest ⊢
      by_cases hfeed : c = '\n'
      · simp [hfeed, hrest]
      · simp [crlf_cons_of_ne hfeed, hc.symm, hrest]

/-! ## Lengths -/

/-- How many characters the first ones of a text become. -/
def crlfLength (text : Text) (length : Nat) : Nat := (crlf (text.take length)).length

@[simp] theorem crlfLength_zero (text : Text) : crlfLength text 0 = 0 := rfl

theorem crlfLength_feed (text : Text) (length : Nat) :
    crlfLength ('\n' :: text) (length + 1) = crlfLength text length + 2 := by
  simp [crlfLength]

theorem crlfLength_cons (h : c ≠ '\n') (text : Text) (length : Nat) :
    crlfLength (c :: text) (length + 1) = crlfLength text length + 1 := by
  simp [crlfLength, crlf_cons_of_ne h]

theorem crlfLength_append (first second : Text) :
    crlfLength (first ++ second) first.length = (crlf first).length := by
  rw [crlfLength, List.take_left]

theorem crlfLength_eq_self (h : '\n' ∉ text.take length) (hle : length ≤ text.length) :
    crlfLength text length = length := by
  rw [crlfLength, crlf_eq_self h, List.length_take, Nat.min_eq_left hle]

theorem length_crlf (text : Text) : (crlf text).length = text.length + text.count '\n' := by
  induction text with
  | nil => rfl
  | cons c text ih =>
      by_cases hc : c = '\n'
      · rw [hc, crlf_feed, List.length_cons, List.length_cons, List.length_cons, List.count_cons_self, ih]
        omega
      · rw [crlf_cons_of_ne hc, List.length_cons, List.length_cons,
          List.count_cons_of_ne hc, ih]
        omega

theorem not_mem_take_of_crlfLength (h : crlfLength text length = length)
    (hle : length ≤ text.length) : '\n' ∉ text.take length := by
  rw [crlfLength, length_crlf, List.length_take_of_le hle] at h
  exact List.count_eq_zero.mp (by omega)

theorem crlfLength_add (text : Text) (first second : Nat) :
    crlfLength text (first + second) =
      crlfLength text first + crlfLength (text.drop first) second := by
  rw [crlfLength, List.take_add, crlf_append, List.length_append]
  rfl

theorem crlf_eq_append (text : Text) (length : Nat) :
    crlf text = crlf (text.take length) ++ crlf (text.drop length) := by
  rw [← crlf_append, List.take_append_drop]

theorem drop_crlfLength (text : Text) (length : Nat) :
    (crlf text).drop (crlfLength text length) = crlf (text.drop length) := by
  rw [crlf_eq_append text length]
  exact List.drop_left

/-! ## Offsets -/

/-- Where an offset of a text comes to stand. -/
def crlfOffset (text : Text) (offset : Nat) : Nat := (crlf (text.takeBytes offset)).size

theorem crlfOffset_append (before rest : Text) :
    crlfOffset (before ++ rest) before.size = (crlf before).size := by
  rw [crlfOffset, takeBytes_append]

theorem crlfOffset_mono (text : Text) (hle : start ≤ stop) : crlfOffset text start ≤ crlfOffset text stop := by
  obtain ⟨between, hbetween⟩ := takeBytes_prefix text hle
  rw [crlfOffset, crlfOffset, ← hbetween, crlf_append, size_append]
  exact Nat.le_add_right _ _

theorem crlfOffset_le_iff (hstart : isBoundary text start = true) (hstop : isBoundary text stop = true) :
    crlfOffset text start ≤ crlfOffset text stop ↔ start ≤ stop := by
  obtain ⟨before, rest, rfl, rfl⟩ := exists_cut_of_isBoundary hstart
  obtain ⟨before', rest', heq, rfl⟩ := exists_cut_of_isBoundary hstop
  rw [crlfOffset_append, heq, crlfOffset_append]
  rcases Nat.le_total before.size before'.size with hle | hle
  · obtain ⟨between, rfl, -⟩ := exists_between_of_size_le heq hle
    rw [crlf_append, size_append, size_append]
    simp
  · obtain ⟨between, rfl, -⟩ := exists_between_of_size_le heq.symm hle
    have hempty : (crlf between).size = 0 ↔ between.size = 0 := by
      rw [size_eq_zero, size_eq_zero, crlf_eq_nil_iff]
    rw [crlf_append, size_append, size_append]
    omega

theorem crlfOffset_inj (hstart : isBoundary text start = true) (hstop : isBoundary text stop = true) :
    crlfOffset text start = crlfOffset text stop ↔ start = stop := by
  rw [Nat.le_antisymm_iff, crlfOffset_le_iff hstart hstop, crlfOffset_le_iff hstop hstart,
    ← Nat.le_antisymm_iff]

theorem slice_crlf (hstart : isBoundary text start = true) (hstop : isBoundary text stop = true) :
    slice (crlf text) (crlfOffset text start) (crlfOffset text stop) = crlf (slice text start stop) := by
  rcases Nat.le_total start stop with hle | hle
  · obtain ⟨before, rest, rfl, rfl⟩ := exists_cut_of_isBoundary hstart
    obtain ⟨before', rest', heq, rfl⟩ := exists_cut_of_isBoundary hstop
    obtain ⟨part, rfl, rfl⟩ := exists_between_of_size_le heq hle
    have hstop' : crlfOffset (before ++ (part ++ rest')) (before ++ part).size =
        (crlf before).size + (crlf part).size := by
      rw [← List.append_assoc, crlfOffset_append, crlf_append, size_append]
    rw [crlfOffset_append, hstop', size_append, slice_append, crlf_append, crlf_append, slice_append]
  · have hle' := (crlfOffset_le_iff hstop hstart).mpr hle
    rw [slice, slice, Nat.sub_eq_zero_of_le hle, Nat.sub_eq_zero_of_le hle', takeBytes_zero,
      takeBytes_zero, crlf_nil]

end Text

/-- Where a span of a text comes to stand. -/
def Span.crlf (text : Text) (span : Span) : Span :=
  ⟨Text.crlfOffset text span.start, Text.crlfOffset text span.stop⟩

/-- The edit that does to a text with carriage returns what another does to the text without. -/
def Edit.crlf (text : Text) (edit : Edit) : Edit := ⟨edit.span.crlf text, Text.crlf edit.replacement⟩

/-- Edits go with the text into which they turn another. -/
theorem Edit.Turns.crlf {text before rest rest' : Text} {edits : List Edit} {offset : Nat}
    (h : Turns offset edits rest rest') (hoffset : before.size = offset) (htext : text = before ++ rest) :
    Turns (Text.crlf before).size (edits.map (Edit.crlf text)) (Text.crlf rest) (Text.crlf rest') := by
  induction h generalizing before with
  | done => exact .done _
  | @kept offset edits rest rest' kept _ ih =>
      have hsize : (before ++ kept).size = offset + kept.size := by rw [Text.size_append, hoffset]
      have hrest := ih hsize (by rw [htext, List.append_assoc])
      rw [Text.crlf_append, Text.size_append] at hrest
      rw [Text.crlf_append, Text.crlf_append]
      exact .kept (Text.crlf kept) hrest
  | @replaced offset edit edits part rest rest' hspan hne _ ih =>
      have hsize : (before ++ part).size = offset + part.size := by rw [Text.size_append, hoffset]
      have hrest := ih hsize (by rw [htext, List.append_assoc])
      rw [Text.crlf_append, Text.size_append] at hrest
      have hstart : Text.crlfOffset text offset = (Text.crlf before).size := by
        rw [← hoffset, htext, Text.crlfOffset_append]
      have hstop : Text.crlfOffset text (offset + part.size) =
          (Text.crlf before).size + (Text.crlf part).size := by
        rw [← hsize, htext, ← List.append_assoc, Text.crlfOffset_append, Text.crlf_append,
          Text.size_append]
      have hspan' : (Edit.crlf text edit).span =
          ⟨(Text.crlf before).size, (Text.crlf before).size + (Text.crlf part).size⟩ := by
        rw [Edit.crlf, Span.crlf, hspan, hstart, hstop]
      rw [List.map_cons, Text.crlf_append, Text.crlf_append]
      exact .replaced hspan' (fun hnil => hne (Text.crlf_eq_nil_iff.mp hnil)) hrest

end CSharpTidy
