import Mathlib.Data.List.Count
import Mathlib.Tactic.SplitIfs
import CSharpTidy.Proofs.Text.Utf8
import CSharpTidy.Text.Position

/-!
# Lines and columns

The table of a text has the places just after its line feeds, in ascending order. So the line that a
search by halves finds for an offset is told by the line feeds before the offset, and the column by the
last of them. No two offsets of a text share a place.
-/

namespace CSharpTidy

/-- Places are in order by lines, and on one line by columns. -/
def Position.Before (first second : Position) : Prop :=
  first.line < second.line ∨ first.line = second.line ∧ first.column < second.column

theorem Position.not_before_self (position : Position) : ¬position.Before position := by
  rintro (h | ⟨-, h⟩)
  · exact Nat.lt_irrefl _ h
  · exact Nat.lt_irrefl _ h

def Text.lineFeed : UInt8 := 0x0a

/-- A line of a text that begins at `start` is the one to which an offset belongs: it opens the text or
stands behind a line feed, and no other line feed comes between. -/
structure Text.LineStart (text : Text) (offset start : Nat) : Prop where
  le : start ≤ offset
  opens : start = 0 ∨ text.toUtf8[start - 1]? = some lineFeed
  unbroken : ∀ i, start ≤ i → i < offset → text.toUtf8[i]? ≠ some lineFeed

namespace LineTable

/-! ## Searching by halves -/

section Search

variable {row : Array Nat} {number low high : Nat}

/-- What has been seen of a row: the numbers before `low` are too low, and those from `high` on are too
high. -/
structure Seen (row : Array Nat) (number low high : Nat) : Prop where
  below : ∀ i (h : i < row.size), i < low → row[i] < number
  above : ∀ i (h : i < row.size), high ≤ i → number < row[i]

/-- A hit holds the number, and a miss parts the numbers that are too low from those that are too
high. -/
def Fits (row : Array Nat) (number : Nat) : Lookup → Prop
  | .hit index => row[index]? = some number
  | .miss next => next ≤ row.size ∧ Seen row number next next

theorem lt_of_lt (hrow : row.toList.Pairwise (· < ·)) {i j : Nat} (hij : i < j) (hj : j < row.size) :
    row[i] < row[j] := by
  have hpair := List.pairwise_iff_getElem.mp hrow i j (by simp; omega) (by simpa) hij
  simpa using hpair

theorem le_of_le (hrow : row.toList.Pairwise (· < ·)) {i j : Nat} (hij : i ≤ j) (hj : j < row.size) :
    row[i] ≤ row[j] := by
  rcases Nat.lt_or_eq_of_le hij with hlt | rfl
  · exact Nat.le_of_lt (lt_of_lt hrow hlt hj)
  · exact Nat.le_refl _

theorem search_fits (hrow : row.toList.Pairwise (· < ·)) (h : high ≤ row.size)
    (hle : low ≤ high) (hseen : Seen row number low high) :
    Fits row number (search row number low high h) := by
  fun_induction search row number low high h with
  | case1 low high h hlt middle hmiddle hbelow ih =>
      -- everything up to the middle is too low
      refine ih (by omega) ⟨fun i hi hlow => ?_, hseen.above⟩
      exact Nat.lt_of_le_of_lt (le_of_le hrow (Nat.le_of_lt_succ hlow) hmiddle) hbelow
  | case2 low high h hlt middle hmiddle hbelow hhit =>
      rw [Fits, Array.getElem?_eq_getElem hmiddle, hhit]
  | case3 low high h hlt middle hmiddle hbelow hmiss ih =>
      -- everything from the middle on is too high
      have habove : number < row[middle] := by omega
      refine ih (by omega) ⟨hseen.below, fun i hi hhigh => ?_⟩
      exact Nat.lt_of_lt_of_le habove (le_of_le hrow hhigh hi)
  | case4 low high h hlt =>
      obtain rfl : low = high := by omega
      exact ⟨h, hseen⟩

end Search

/-! ## The lines of a text -/

section Lines

variable {text : Text} {bytes line : List UInt8} {start offset n : Nat}

theorem lineFeed_notMem_utf8EncodeChar {c : Char} (h : c ≠ '\n') :
    Text.lineFeed ∉ String.utf8EncodeChar c := by
  intro hmem
  have hfeed : c.val.toNat ≠ 10 := fun heq => h (Char.ext (UInt32.toNat_inj.mp heq))
  have hbyte : ∀ k, k < 256 → k ≠ 10 → ¬Text.lineFeed = UInt8.ofNat k := by
    intro k hlt hne heq
    have htoNat := congrArg UInt8.toNat heq
    rw [UInt8.toNat_ofNat_of_lt' hlt] at htoNat
    exact hne htoNat.symm
  unfold String.utf8EncodeChar at hmem
  generalize c.val.toNat = m at *
  simp only at hmem
  split_ifs at hmem <;>
    simp (disch := omega) only [List.mem_cons, List.not_mem_nil, hbyte, or_self] at hmem

/-- The offsets just after the line feeds of bytes that begin at `start`. -/
def feedsAfter (start : Nat) : List UInt8 → List Nat
  | [] => []
  | byte :: bytes =>
      if byte = Text.lineFeed then (start + 1) :: feedsAfter (start + 1) bytes
      else feedsAfter (start + 1) bytes

theorem feedsAfter_append (h : Text.lineFeed ∉ line) (start : Nat) (bytes : List UInt8) :
    feedsAfter start (line ++ bytes) = feedsAfter (start + line.length) bytes := by
  induction line generalizing start with
  | nil => rfl
  | cons byte line ih =>
      obtain ⟨hbyte, hline⟩ := not_or.mp (mt List.mem_cons.mpr h)
      rw [List.cons_append, feedsAfter, if_neg (Ne.symm hbyte), ih hline, List.length_cons,
        Nat.add_right_comm, Nat.add_assoc]

theorem startsAfter_eq (start : Nat) (text : Text) :
    startsAfter start text = feedsAfter start text.toUtf8 := by
  induction text generalizing start with
  | nil => rw [Text.toUtf8_nil, startsAfter, feedsAfter]
  | cons c text ih =>
      rw [Text.toUtf8_cons, startsAfter]
      by_cases hfeed : c = '\n'
      · subst hfeed
        rw [if_pos rfl, ih]
        rfl
      · rw [if_neg hfeed, ih, feedsAfter_append (lineFeed_notMem_utf8EncodeChar hfeed),
          String.length_utf8EncodeChar]

theorem mem_feedsAfter_iff :
    n ∈ feedsAfter start bytes ↔ ∃ i, bytes[i]? = some Text.lineFeed ∧ n = start + i + 1 := by
  induction bytes generalizing start with
  | nil => simp [feedsAfter]
  | cons byte bytes ih =>
      have hrest : n ∈ feedsAfter (start + 1) bytes ↔
          ∃ i, (byte :: bytes)[i + 1]? = some Text.lineFeed ∧ n = start + (i + 1) + 1 := by
        rw [ih]
        refine exists_congr fun i => ?_
        rw [List.getElem?_cons_succ, Nat.add_right_comm start 1 i, Nat.add_assoc start i 1]
      rw [← Nat.or_exists_add_one, ← hrest, List.getElem?_cons_zero, Option.some_inj, Nat.add_zero,
        feedsAfter]
      split
      · next hfeed => rw [List.mem_cons, and_iff_right hfeed]
      · next hfeed => rw [or_iff_right fun h => hfeed h.1]

theorem pairwise_feedsAfter (start : Nat) (bytes : List UInt8) :
    (start :: feedsAfter start bytes).Pairwise (· < ·) := by
  induction bytes generalizing start with
  | nil => exact List.pairwise_singleton ..
  | cons byte bytes ih =>
      refine List.pairwise_cons.mpr ⟨fun n hn => ?_, ?_⟩
      · obtain ⟨i, -, rfl⟩ := mem_feedsAfter_iff.mp hn
        omega
      · rw [feedsAfter]
        split
        · exact ih (start + 1)
        · exact (ih (start + 1)).of_cons

theorem countP_feedsAfter (start offset : Nat) (bytes : List UInt8) :
    (feedsAfter start bytes).countP (· ≤ start + offset) =
      (bytes.take offset).count Text.lineFeed := by
  induction bytes generalizing start offset with
  | nil => simp [feedsAfter]
  | cons byte bytes ih =>
      cases offset with
      | zero =>
          refine List.countP_eq_zero.mpr fun n hn => ?_
          obtain ⟨i, -, rfl⟩ := mem_feedsAfter_iff.mp hn
          simp only [decide_eq_true_eq]
          omega
      | succ offset =>
          have hrest := ih (start + 1) offset
          rw [Nat.add_right_comm] at hrest
          rw [List.take_succ_cons, List.count_cons, ← hrest, feedsAfter]
          by_cases hfeed : byte = Text.lineFeed
          · rw [if_pos hfeed, List.countP_cons_of_pos (by simp), if_pos (beq_iff_eq.mpr hfeed)]
            rfl
          · rw [if_neg hfeed, if_neg (mt beq_iff_eq.mp hfeed)]
            rfl

end Lines

/-! ## Places of offsets -/

section Places

variable {row : Array Nat} {text : Text} {offset line start : Nat}

theorem toList_starts (text : Text) :
    (ofText text).starts.toList = 0 :: feedsAfter 0 text.toUtf8 := by
  rw [← startsAfter_eq]
  rfl

theorem ascending_starts (text : Text) : (ofText text).starts.toList.Pairwise (· < ·) :=
  toList_starts text ▸ pairwise_feedsAfter 0 text.toUtf8

/-- The line of an offset is the last one that starts no later. -/
structure LastStart (row : Array Nat) (offset line : Nat) : Prop where
  lt : line < row.size
  le : row[line] ≤ offset
  last : ∀ i (h : i < row.size), line < i → offset < row[i]

theorem LastStart.countP_eq (h : LastStart row offset line) (hrow : row.toList.Pairwise (· < ·)) :
    row.toList.countP (· ≤ offset) = line + 1 := by
  have hlt : line < row.toList.length := h.lt
  have hfirst : (row.toList.take (line + 1)).countP (· ≤ offset) = line + 1 := by
    rw [List.countP_eq_length.mpr, List.length_take_of_le hlt]
    intro n hn
    obtain ⟨i, hi, rfl⟩ := List.mem_take_iff_getElem.mp hn
    exact decide_eq_true (Nat.le_trans (le_of_le hrow (by omega) h.lt) h.le)
  have hrest : (row.toList.drop (line + 1)).countP (· ≤ offset) = 0 := by
    refine List.countP_eq_zero.mpr fun n hn => ?_
    obtain ⟨i, hi, rfl⟩ := List.mem_drop_iff_getElem.mp hn
    rw [Array.length_toList] at hi
    have hlast := h.last (line + 1 + i) (by omega) (by omega)
    simpa using hlast
  rw [← List.take_append_drop (line + 1) row.toList, List.countP_append, hfirst, hrest]

theorem fits_find (text : Text) (offset : Nat) :
    Fits (ofText text).starts offset ((ofText text).find offset) :=
  search_fits (ascending_starts text) (Nat.le_refl _) (Nat.zero_le _)
    ⟨fun i _ hlow => absurd hlow (Nat.not_lt_zero i),
      fun _ hi hhigh => absurd hi (Nat.not_lt_of_le hhigh)⟩

theorem find_ne_miss_zero (text : Text) (offset : Nat) : (ofText text).find offset ≠ .miss 0 := by
  intro hmiss
  have hfits := fits_find text offset
  rw [hmiss] at hfits
  exact Nat.not_lt_zero offset (hfits.2.above 0 (Nat.zero_lt_succ _) (Nat.le_refl 0))

theorem lastStart_lineAt (text : Text) (offset : Nat) :
    LastStart (ofText text).starts offset ((ofText text).lineAt offset) := by
  have hfits := fits_find text offset
  have hmiss := find_ne_miss_zero text offset
  have hrow := ascending_starts text
  rw [lineAt]
  generalize (ofText text).starts = row at *
  cases hfind : (ofText text).find offset with
  | hit line =>
      rw [hfind] at hfits
      obtain ⟨hlt, hline⟩ := Array.getElem?_eq_some_iff.mp hfits
      exact ⟨hlt, Nat.le_of_eq hline, fun i hi hlater => hline ▸ lt_of_lt hrow hlater hi⟩
  | miss next =>
      rw [hfind] at hfits hmiss
      obtain ⟨hle, hseen⟩ := hfits
      have hnext : next ≠ 0 := fun hzero => hmiss (congrArg Lookup.miss hzero)
      have hlast : next - 1 < next := by omega
      refine ⟨by simp only; omega, Nat.le_of_lt (hseen.below _ _ hlast), fun i hi hlater => ?_⟩
      exact hseen.above i hi (by simp only at hlater; omega)

/-- The index of a line is the number of line feeds before it. -/
theorem lineAt_eq (text : Text) (offset : Nat) :
    (ofText text).lineAt offset = (text.toUtf8.take offset).count Text.lineFeed := by
  have hcount := (lastStart_lineAt text offset).countP_eq (ascending_starts text)
  rw [toList_starts, List.countP_cons_of_pos (by simp)] at hcount
  rw [← countP_feedsAfter 0, Nat.zero_add]
  exact (Nat.add_right_cancel hcount).symm

theorem LastStart.lineStart (h : LastStart (ofText text).starts offset line)
    (hstart : (ofText text).starts[line]? = some start) : text.LineStart offset start := by
  obtain ⟨hlt, rfl⟩ := Array.getElem?_eq_some_iff.mp hstart
  refine ⟨h.le, ?_, fun i hle hbefore hfeed => ?_⟩
  · have hmem : (ofText text).starts[line] ∈ 0 :: feedsAfter 0 text.toUtf8 :=
      toList_starts text ▸ Array.getElem_mem_toList hlt
    rcases List.mem_cons.mp hmem with hzero | hfeed
    · exact .inl hzero
    · obtain ⟨i, hi, heq⟩ := mem_feedsAfter_iff.mp hfeed
      refine .inr ?_
      rw [heq, Nat.zero_add, Nat.add_sub_cancel, hi]
  · have hmem : i + 1 ∈ (ofText text).starts.toList := by
      rw [toList_starts]
      exact List.mem_cons_of_mem _ (mem_feedsAfter_iff.mpr ⟨i, hfeed, by omega⟩)
    obtain ⟨j, hj, heq⟩ := List.mem_iff_getElem.mp hmem
    rw [Array.getElem_toList] at heq
    -- the line behind the line feed would be a later one that starts no later than the offset
    rcases Nat.lt_or_ge line j with hlater | hearlier
    · have := h.last j hj hlater
      omega
    · have := le_of_le (ascending_starts text) hearlier hlt
      omega

/-- The line of a place is one more than the line feeds before it, and the column one more than the bytes
since the last of them. -/
theorem position_eq (text : Text) (offset : Nat) :
    ∃ start, (ofText text).starts[(ofText text).lineAt (min offset text.size)]? = some start ∧
      text.LineStart (min offset text.size) start ∧
      (ofText text).position offset =
        ⟨1 + (text.toUtf8.take (min offset text.size)).count Text.lineFeed,
          1 + (min offset text.size - start)⟩ := by
  have hlast := lastStart_lineAt text (min offset text.size)
  have hstart := Array.getElem?_eq_getElem hlast.lt
  refine ⟨_, hstart, hlast.lineStart hstart, ?_⟩
  change (⟨(ofText text).lineAt (min offset text.size) + 1,
    min offset text.size - (ofText text).starts.getD ((ofText text).lineAt (min offset text.size)) 0 +
      1⟩ : Position) = _
  rw [Array.getD_eq_getD_getElem?, hstart, Option.getD_some, ← lineAt_eq, Nat.add_comm 1,
    Nat.add_comm 1]

theorem position_before {first second : Nat} (hlt : first < second) (hle : second ≤ text.size) :
    ((ofText text).position first).Before ((ofText text).position second) := by
  have hfirst : min first text.size = first := by omega
  have hsecond : min second text.size = second := by omega
  obtain ⟨start, hstart, hline, hposition⟩ := position_eq text first
  obtain ⟨start', hstart', hline', hposition'⟩ := position_eq text second
  rw [hfirst] at hstart hline hposition
  rw [hsecond] at hstart' hline' hposition'
  have hcount : (text.toUtf8.take first).count Text.lineFeed ≤
      (text.toUtf8.take second).count Text.lineFeed :=
    (List.take_sublist_take_left (Nat.le_of_lt hlt)).count_le _
  rw [hposition, hposition', Position.Before]
  rcases Nat.lt_or_eq_of_le hcount with hearlier | hsame
  · exact .inl (Nat.add_lt_add_left hearlier 1)
  · refine .inr ⟨congrArg (1 + ·) hsame, ?_⟩
    rw [lineAt_eq, hsame, ← lineAt_eq, hstart'] at hstart
    obtain rfl := Option.some.inj hstart
    have := hline.le
    simp only
    omega

/-- **Places are exact.** The search for a line never misses in front of the first one. Line and column of
an offset, or of the end for an offset past it, are told by the line feeds before it. Later offsets have
later places, so no two share one, and no line is past the last. -/
theorem positions_exact (text : Text) :
    (∀ offset, (ofText text).find (min offset text.size) ≠ .miss 0 ∧
      ∃ start, (ofText text).starts[(ofText text).lineAt (min offset text.size)]? = some start ∧
        text.LineStart (min offset text.size) start ∧
        (ofText text).position offset =
          ⟨1 + (text.toUtf8.take (min offset text.size)).count Text.lineFeed,
            1 + (min offset text.size - start)⟩) ∧
    (∀ first second, first < second → second ≤ text.size →
      ((ofText text).position first).Before ((ofText text).position second)) ∧
    (∀ first second, first ≤ text.size → second ≤ text.size →
      (ofText text).position first = (ofText text).position second → first = second) ∧
    ∀ offset, ((ofText text).position offset).line ≤ (ofText text).lineCount := by
  refine ⟨fun offset => ⟨find_ne_miss_zero text _, position_eq text offset⟩,
    fun _ _ hlt hle => position_before hlt hle, fun first second hfirst hsecond hsame => ?_,
    fun offset => (lastStart_lineAt text (min offset text.size)).lt⟩
  rcases Nat.lt_trichotomy first second with hlt | heq | hgt
  · exact absurd (hsame ▸ position_before hlt hsecond) (Position.not_before_self _)
  · exact heq
  · exact absurd (hsame ▸ position_before hgt hfirst) (Position.not_before_self _)

/-- The third line is empty, and its line feed stands at offset 7. -/
theorem positions_exact_of_empty_line :
    7 < 8 ∧ 8 ≤ Text.size "ab\ncde\n\nf".toList ∧
    ((ofText "ab\ncde\n\nf".toList).position 7).Before ((ofText "ab\ncde\n\nf".toList).position 8) :=
  ⟨by decide, by decide, (positions_exact _).2.1 7 8 (by decide) (by decide)⟩

end Places

end LineTable

end CSharpTidy
