import CSharpTidy.Proofs.Format.Strip
import CSharpTidy.Proofs.Text.Rewrite

/-!
# The edits at the ends of lines

The formatter looks at a text line by line. Seen from a single character, its edits cover what is
trimmed: a blank behind which nothing but blanks is left of the line, unless the blanks begin in a
string.
-/

namespace CSharpTidy

namespace Text

theorem lines_append {line : Text} (hline : '\n' ∉ line) (rest : Text) :
    lines (line ++ '\n' :: rest) = line :: lines rest := by
  rw [lines, lines, split_eq_splitOn, split_eq_splitOn]
  exact List.splitOn_append_cons_self_of_not_mem hline rest

theorem lines_of_not_mem {line : Text} (hline : '\n' ∉ line) : lines line = [line] :=
  (split_eq_splitOn ..).trans (List.splitOn_eq_singleton hline)

end Text

namespace Spacing

open Scan (breaks)

variable {c : Char} {text before rest after line content blanks : Text} {strings : List Span}
  {offset : Nat} {edit : Edit}

theorem trimmed_append (text : Text) (h : blanks.all isBlank = true) :
    trimmed (text ++ blanks) = trimmed text := by
  rw [trimmed, trimmed, List.reverse_append, List.dropWhile_append_of_pos]
  intro c hmem
  exact List.all_eq_true.mp h c (List.mem_reverse.mp hmem)

theorem trimmed_append_cons (hblank : isBlank c = false) (before rest : Text) :
    trimmed (before ++ c :: rest) = before ++ c :: trimmed rest := by
  have hreverse : (before ++ c :: rest).reverse = rest.reverse ++ (c :: before.reverse) := by simp
  rw [trimmed, trimmed, hreverse, List.dropWhile_append]
  split
  · next hempty =>
      rw [List.isEmpty_iff] at hempty
      rw [hempty, List.dropWhile_cons, if_neg (by simp [hblank])]
      simp
  · simp

theorem exists_blanks (text : Text) :
    ∃ blanks, text = trimmed text ++ blanks ∧ blanks.all isBlank = true := by
  refine ⟨(text.reverse.takeWhile isBlank).reverse, ?_, ?_⟩
  · rw [trimmed, ← List.reverse_append, List.takeWhile_append_dropWhile, List.reverse_reverse]
  · rw [List.all_reverse]
    exact List.all_takeWhile

theorem lineContent_append (hc : rest = [] → c ≠ '\r') (before : Text) :
    lineContent (before ++ c :: rest) = before ++ c :: lineContent rest := by
  rw [lineContent, lineContent]
  cases rest with
  | nil => simp [hc rfl]
  | cons d rest =>
      have hlast : (before ++ c :: d :: rest).getLast? = (d :: rest).getLast? := by
        rw [List.getLast?_append, List.getLast?_cons_cons]
        cases hrest : (d :: rest).getLast? with
        | none => simp at hrest
        | some last => rfl
      rw [hlast]
      split
      · rw [List.dropLast_append_of_ne_nil (List.cons_ne_nil _ _)]
        rfl
      · rfl

/-- What is left of a line is trimmed where it holds blanks only. -/
theorem trims_append_iff (hrest : '\n' ∉ rest) (hafter : breaks after = true) :
    trims (rest ++ after) = true ↔ (lineContent rest).all isBlank = true := by
  induction rest with
  | nil =>
      have htrims : trims after = true := trims_of_ends (by rw [ends, hafter, Bool.true_or])
      simpa [lineContent] using htrims
  | cons c rest ih =>
      rw [List.mem_cons, not_or] at hrest
      have hfeed : (c == '\n') = false := beq_eq_false_iff_ne.mpr fun h => hrest.1 h.symm
      rw [List.cons_append, trims_cons]
      by_cases hblank : isBlank c = true
      · have hreturn : c ≠ '\r' := by
          rintro rfl
          cases hblank
        have hcontent := lineContent_append (fun _ => hreturn : rest = [] → c ≠ '\r') []
        rw [List.nil_append, List.nil_append] at hcontent
        rw [if_pos hblank, ih hrest.2, hcontent, List.all_cons, hblank, Bool.true_and]
      · rw [if_neg hblank, ends, breaks, Scan.carriage, hfeed, Bool.false_or, Bool.and_eq_true,
          beq_iff_eq]
        constructor
        · rintro ⟨rfl, hbreaks⟩
          cases rest with
          | nil => rfl
          | cons d rest =>
              exact absurd (by simpa [breaks] using hbreaks)
                (fun h : d = '\n' => hrest.2 (by rw [h]; exact List.mem_cons_self))
        · intro hall
          by_cases hlast : c = '\r' ∧ rest = []
          · obtain ⟨rfl, rfl⟩ := hlast
            exact ⟨rfl, hafter⟩
          · -- any other character that is no blank keeps the line from being trimmed
            have hcontent := lineContent_append
              (fun hrest hreturn => hlast ⟨hreturn, hrest⟩ : rest = [] → c ≠ '\r') []
            rw [List.nil_append, List.nil_append] at hcontent
            rw [hcontent, List.all_cons, Bool.and_eq_true] at hall
            exact absurd hall.1 hblank

def lineEdits (strings : List Span) (offset : Nat) (line : Text) : List Edit :=
  let start := offset + (trimmed (lineContent line)).size
  let blanks : Span := ⟨start, offset + (lineContent line).size⟩
  if blanks.isEmpty || strings.any (·.contains start) then [] else [.delete blanks]

theorem trailingEdits_cons (strings : List Span) (offset : Nat) (line : Text) (rest : List Text) :
    trailingEdits strings offset (line :: rest) =
      lineEdits strings offset line ++ trailingEdits strings (offset + line.size + 1) rest := rfl

theorem exists_return (line : Text) :
    ∃ ending, line = lineContent line ++ ending ∧ (ending = [] ∨ ending = ['\r']) := by
  rw [lineContent]
  split
  · next hlast =>
      obtain ⟨content, rfl⟩ := List.getLast?_eq_some_iff.mp hlast
      exact ⟨['\r'], by simp, .inr rfl⟩
  · exact ⟨[], by simp, .inl rfl⟩

theorem mem_lineEdits (h : edit ∈ lineEdits strings offset line) :
    ∃ before blanks ending, line = before ++ (blanks ++ ending) ∧ blanks ≠ [] ∧
      blanks.all isBlank = true ∧ (ending = [] ∨ ending = ['\r']) ∧
        edit = .delete ⟨offset + before.size, offset + before.size + blanks.size⟩ := by
  obtain ⟨ending, hline, hending⟩ := exists_return line
  obtain ⟨blanks, hcontent, hblanks⟩ := exists_blanks (lineContent line)
  have hsize : (lineContent line).size = (trimmed (lineContent line)).size + blanks.size := by
    rw [← Text.size_append, ← hcontent]
  unfold lineEdits at h
  simp only at h
  split at h
  · cases h
  · next hkept =>
      refine ⟨trimmed (lineContent line), blanks, ending, ?_, ?_, hblanks, hending, ?_⟩
      · rw [← List.append_assoc, ← hcontent, ← hline]
      · rintro rfl
        rw [Text.size_nil, Nat.add_zero] at hsize
        simp [Span.isEmpty, hsize] at hkept
      · rw [List.mem_singleton.mp h, hsize, Nat.add_assoc]

theorem bounds_of_mem_lineEdits (h : edit ∈ lineEdits strings offset line) :
    edit.span.start < edit.span.stop ∧ edit.span.stop ≤ offset + line.size := by
  obtain ⟨before, blanks, ending, rfl, hne, -, -, rfl⟩ := mem_lineEdits h
  have hpos := Text.size_pos hne
  simp only [Edit.delete, Text.size_append]
  omega

theorem mem_trailingEdits {edit : Edit} {strings : List Span} {offset : Nat} {text : Text}
    (h : edit ∈ trailingEdits strings offset text.lines) :
    ∃ before blanks after, text = before ++ (blanks ++ after) ∧ blanks ≠ [] ∧
      blanks.all isBlank = true ∧ ends after = true ∧
        edit = .delete ⟨offset + before.size, offset + before.size + blanks.size⟩ := by
  obtain ⟨line, after, rfl, hline, hafter⟩ := Scan.exists_line text
  have hfirst : ∀ {after}, breaks after = true → edit ∈ lineEdits strings offset line →
      ∃ before blanks rest, line ++ after = before ++ (blanks ++ rest) ∧ blanks ≠ [] ∧
        blanks.all isBlank = true ∧ ends rest = true ∧
          edit = .delete ⟨offset + before.size, offset + before.size + blanks.size⟩ := by
    intro after hafter hmem
    obtain ⟨before, blanks, ending, rfl, hne, hblanks, hending, hedit⟩ := mem_lineEdits hmem
    refine ⟨before, blanks, ending ++ after, by simp, hne, hblanks, ?_, hedit⟩
    rcases hending with rfl | rfl
    · rw [List.nil_append, ends, hafter, Bool.true_or]
    · rw [List.singleton_append, ends, Scan.carriage, hafter]
      rfl
  cases after with
  | nil =>
      rw [List.append_nil, Text.lines_of_not_mem hline, trailingEdits_cons] at h
      rcases List.mem_append.mp h with h | h
      · exact hfirst hafter h
      · cases h
  | cons d after =>
      obtain rfl : d = '\n' := by simpa [breaks] using hafter
      rw [Text.lines_append hline, trailingEdits_cons] at h
      rcases List.mem_append.mp h with h | h
      · exact hfirst hafter h
      · obtain ⟨before, blanks, rest, rfl, hne, hblanks, hends, hedit⟩ := mem_trailingEdits h
        have hfeed : Char.utf8Size '\n' = 1 := rfl
        refine ⟨line ++ '\n' :: before, blanks, rest, by simp, hne, hblanks, hends, ?_⟩
        rw [hedit, Text.size_append, Text.size_cons, hfeed]
        congr 2 <;> omega
termination_by text.length

theorem le_start_of_mem_trailingEdits (h : edit ∈ trailingEdits strings offset text.lines) :
    offset ≤ edit.span.start := by
  obtain ⟨before, blanks, after, -, -, -, -, rfl⟩ := mem_trailingEdits h
  exact Nat.le_add_right offset before.size

theorem pairwise_lineEdits (strings : List Span) (offset : Nat) (line : Text) :
    (lineEdits strings offset line).Pairwise Edit.Precedes := by
  unfold lineEdits
  simp only
  split
  · exact .nil
  · exact List.pairwise_singleton _ _

theorem pairwise_trailingEdits (strings : List Span) (offset : Nat) (text : Text) :
    (trailingEdits strings offset text.lines).Pairwise Edit.Precedes := by
  obtain ⟨line, after, rfl, hline, hafter⟩ := Scan.exists_line text
  cases after with
  | nil =>
      rw [List.append_nil, Text.lines_of_not_mem hline, trailingEdits_cons, trailingEdits,
        List.append_nil]
      exact pairwise_lineEdits strings offset line
  | cons d after =>
      obtain rfl : d = '\n' := by simpa [breaks] using hafter
      rw [Text.lines_append hline, trailingEdits_cons]
      refine List.pairwise_append.mpr ⟨pairwise_lineEdits strings offset line,
        pairwise_trailingEdits strings _ after, fun first hfirst second hsecond => ?_⟩
      have hbounds := bounds_of_mem_lineEdits hfirst
      have hlater := le_start_of_mem_trailingEdits hsecond
      rw [Edit.Precedes]
      omega
termination_by text.length

theorem covers_lineEdits_eq (strings : List Span) (offset position : Nat) (line : Text) :
    Edit.covers (lineEdits strings offset line) (offset + position) =
      (decide ((trimmed (lineContent line)).size ≤ position) &&
        decide (position < (lineContent line).size) &&
          !strings.any (·.contains (offset + (trimmed (lineContent line)).size))) := by
  unfold lineEdits
  simp only
  generalize (trimmed (lineContent line)).size = start
  generalize (lineContent line).size = stop
  cases hstring : strings.any (·.contains (offset + start)) with
  | true => rw [if_pos (Bool.or_true _), Edit.covers_nil, Bool.not_true, Bool.and_false]
  | false =>
      rw [Bool.not_false, Bool.and_true]
      by_cases hempty : start = stop
      · rw [if_pos (by simp [Span.isEmpty, hempty]), Edit.covers_nil]
        symm
        rw [Bool.and_eq_false_iff, decide_eq_false_iff_not, decide_eq_false_iff_not]
        omega
      · rw [if_neg (by simp [Span.isEmpty, hempty])]
        simp [Edit.covers, Edit.delete, Span.contains]

theorem size_trimmed_le (text : Text) : (trimmed text).size ≤ text.size := by
  obtain ⟨blanks, htext, -⟩ := exists_blanks text
  calc (trimmed text).size
      ≤ (trimmed text).size + blanks.size := Nat.le_add_right _ _
    _ = text.size := by rw [← Text.size_append, ← htext]

/-- Where something other than a blank follows, trimming stops behind it. -/
theorem size_lt_trimmed {first second : Text} (h : second.all isBlank ≠ true) :
    first.size < (trimmed (first ++ second)).size := by
  refine Nat.lt_of_not_le fun hle => ?_
  obtain ⟨blanks, hcut, hblanks⟩ := exists_blanks (first ++ second)
  obtain ⟨between, -, hbetween⟩ := Text.exists_between_of_size_le hcut.symm hle
  rw [hbetween, List.all_append, Bool.and_eq_true] at hblanks
  exact h hblanks.2

theorem covers_lineEdits (strings : List Span) (offset : Nat) (hrest : '\n' ∉ rest)
    (hafter : breaks after = true) :
    Edit.covers (lineEdits strings offset (before ++ c :: rest)) (offset + before.size) =
      (isBlank c && trims (rest ++ after) &&
        !strings.any (·.contains (offset + (trimmed before).size))) := by
  rw [covers_lineEdits_eq]
  by_cases hlast : c = '\r' ∧ rest = []
  · -- the carriage return belongs to the line end
    obtain ⟨rfl, rfl⟩ := hlast
    have hcontent : lineContent (before ++ ['\r']) = before := by simp [lineContent]
    simp [hcontent, isBlank]
  · rw [lineContent_append (fun hrest hreturn => hlast ⟨hreturn, hrest⟩)]
    have hlt : before.size < (before ++ c :: lineContent rest).size := by
      have := c.utf8Size_pos
      rw [Text.size_append, Text.size_cons]
      omega
    rw [decide_eq_true hlt, Bool.and_true]
    by_cases hall : (c :: lineContent rest).all isBlank = true
    · have htrims := (trims_append_iff hrest hafter).mpr (Bool.and_eq_true_iff.mp hall).2
      rw [trimmed_append before hall, decide_eq_true (size_trimmed_le before), htrims,
        (Bool.and_eq_true_iff.mp hall).1]
      rfl
    · have hnot : (isBlank c && trims (rest ++ after)) = false := by
        rw [Bool.eq_false_iff, ne_eq, Bool.and_eq_true, trims_append_iff hrest hafter,
          ← Bool.and_eq_true]
        exact hall
      rw [hnot, decide_eq_false (Nat.not_le.mpr (size_lt_trimmed hall))]
      rfl

/-- **What is trimmed.** The edits cover a blank that stands at the end of its line, unless the blanks
there begin in a string, and they cover nothing else. -/
theorem covers_trailingEdits (strings : List Span) (offset : Nat) (before : Text) (c : Char)
    (rest : Text) :
    Edit.covers (trailingEdits strings offset (Text.lines (before ++ c :: rest)))
        (offset + before.size) =
      (isBlank c && trims rest && !strings.any (·.contains (offset + (trimmed before).size))) := by
  obtain ⟨line, after, htext, hline, hafter⟩ := Scan.exists_line (before ++ c :: rest)
  by_cases hin : before.size < line.size
  · -- the character stands in the first line
    obtain ⟨between, rfl, hbetween⟩ := Text.exists_between_of_size_le htext (Nat.le_of_lt hin)
    cases between with
    | nil => simp at hin
    | cons d rest' =>
        obtain ⟨rfl, rfl⟩ := List.cons.inj hbetween
        have hrest' : '\n' ∉ rest' := fun hmem =>
          hline (List.mem_append_right _ (List.mem_cons_of_mem _ hmem))
        have hfirst : Edit.covers (lineEdits strings offset (before ++ c :: rest'))
            (offset + before.size) =
              (isBlank c && trims (rest' ++ after) &&
                !strings.any (·.contains (offset + (trimmed before).size))) :=
          covers_lineEdits strings offset hrest' hafter
        rw [htext]
        cases after with
        | nil =>
            rw [List.append_nil, Text.lines_of_not_mem hline, trailingEdits_cons, trailingEdits,
              List.append_nil, hfirst]
            rfl
        | cons d after =>
            obtain rfl : d = '\n' := by simpa [breaks] using hafter
            rw [Text.lines_append hline, trailingEdits_cons, Edit.covers_append, hfirst]
            have hlater : Edit.covers (trailingEdits strings
                (offset + (before ++ c :: rest').size + 1) (Text.lines after)) (offset + before.size) =
                  false := by
              refine Edit.covers_eq_false fun edit hmem => .inl ?_
              have := le_start_of_mem_trailingEdits hmem
              omega
            rw [hlater, Bool.or_false]
            rfl
  · -- the character is the line feed behind the first line, or stands in a later line
    obtain ⟨between, rfl, rfl⟩ := Text.exists_between_of_size_le htext.symm (Nat.le_of_not_lt hin)
    have hfirst : Edit.covers (lineEdits strings offset line) (offset + (line ++ between).size) =
        false := by
      refine Edit.covers_eq_false fun edit hmem => .inr ?_
      have := (bounds_of_mem_lineEdits hmem).2
      rw [Text.size_append]
      omega
    have hfeed : Char.utf8Size '\n' = 1 := rfl
    cases between with
    | nil =>
        obtain rfl : c = '\n' := by simpa [breaks] using hafter
        have hlater : Edit.covers (trailingEdits strings (offset + line.size + 1) (Text.lines rest))
            (offset + (line ++ []).size) = false := by
          refine Edit.covers_eq_false fun edit hmem => .inl ?_
          have := le_start_of_mem_trailingEdits hmem
          rw [List.append_nil]
          omega
        rw [htext, List.nil_append, Text.lines_append hline, trailingEdits_cons, Edit.covers_append,
          hfirst, hlater]
        rfl
    | cons d before' =>
        obtain rfl : d = '\n' := by simpa [breaks] using hafter
        have hnext := covers_trailingEdits strings (offset + line.size + 1) before' c rest
        have hsize : offset + line.size + 1 + Text.size before' =
            offset + (line ++ '\n' :: before').size := by
          rw [Text.size_append, Text.size_cons, hfeed]
          omega
        have htrimmed : offset + line.size + 1 + (trimmed before').size =
            offset + (trimmed (line ++ '\n' :: before')).size := by
          rw [trimmed_append_cons rfl, Text.size_append, Text.size_cons, hfeed]
          omega
        rw [hsize, htrimmed] at hnext
        rw [htext, List.cons_append, Text.lines_append hline, trailingEdits_cons, Edit.covers_append,
          hfirst, hnext, Bool.false_or]
termination_by before.length

end Spacing

end CSharpTidy
