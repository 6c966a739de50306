import CSharpTidy.Proofs.Text.Crlf
import CSharpTidy.Proofs.Token.Context

/-!
# Scanning texts with other line ends

A text with carriage returns before its line feeds scans into the tokens of the text without, each with
its own line feeds changed. Only a literal that a backslash carries on to the next line breaks: there the
backslash takes the carriage return, and the line feed ends the literal.
-/

namespace CSharpTidy

namespace Scan

open Text (crlf crlfLength)

variable {c mark quote : Char} {text tail rest lexeme marks : Text} {length fence : Nat}
  {lineStart : Bool} {kind : TokenKind}

/-! ## What comes into sight -/

theorem sight_crlf (text : Text) : sight (crlf text) = sight text := by
  induction text with
  | nil => rfl
  | cons c text ih =>
      by_cases hc : c = '\n'
      · rw [hc, Text.crlf_feed, sight_of_isBlank (by decide), sight_of_isBlank (by decide)]
      · rw [Text.crlf_cons_of_ne hc, sight, sight, ih]

theorem quoteRun_crlf (text : Text) : quoteRun (crlf text) = quoteRun text :=
  quoteRun_congr (sight_crlf text)

/-! ## Lengths -/

theorem lineLength_crlf (h : '\r' ∉ text) :
    lineLength (crlf text) = lineLength text ∧ crlfLength text (lineLength text) = lineLength text := by
  obtain ⟨line, after, rfl, hline, hafter⟩ := exists_line text
  have hreturn : line.getLast? ≠ some '\r' := fun hlast =>
    h (List.mem_append_left _ (List.mem_of_getLast? hlast))
  have hlength : lineLength (line ++ after) = line.length := by
    rw [lineLength_append hline hafter, if_neg hreturn]
  constructor
  · rw [hlength, Text.crlf_append, Text.crlf_eq_self hline]
    cases after with
    | nil => rw [Text.crlf_nil, lineLength_append hline rfl, if_neg hreturn]
    | cons c after =>
        obtain rfl : c = '\n' := beq_iff_eq.mp hafter
        have hconcat : '\n' ∉ line ++ ['\r'] := by simp [hline]
        rw [Text.crlf_feed, List.append_cons, lineLength_append hconcat rfl]
        simp
  · rw [hlength, Text.crlfLength_append, Text.crlf_eq_self hline]

/-- The line end takes one character in one text and two in the other. -/
theorem map_crlfLength_feed (found : Option Nat) (text : Text) :
    (found.map (crlfLength text)).map (· + 2) =
      (found.map (· + 1)).map (crlfLength ('\n' :: text)) := by
  cases found with
  | none => rfl
  | some length => simp [Text.crlfLength_feed]

theorem map_crlfLength_cons (hc : c ≠ '\n') (found : Option Nat) (text : Text) :
    (found.map (crlfLength text)).map (· + 1) = (found.map (· + 1)).map (crlfLength (c :: text)) := by
  cases found with
  | none => rfl
  | some length => simp [Text.crlfLength_cons hc]

theorem commentLength?_return (text : Text) :
    commentLength? ('\r' :: '\n' :: text) = (commentLength? text).map (· + 2) := by
  rw [commentLength?_cons rfl, commentLength?_cons rfl, Option.map_map]
  rfl

theorem commentLength?_crlf (text : Text) :
    commentLength? (crlf text) = (commentLength? text).map (crlfLength text) := by
  induction text with
  | nil => rfl
  | cons c text ih =>
      by_cases hc : c = '\n'
      · rw [hc, Text.crlf_feed, commentLength?_return, ih, commentLength?_cons rfl,
          map_crlfLength_feed]
      · rw [Text.crlf_cons_of_ne hc]
        have hnext : ((crlf text).head? == some '/') = (text.head? == some '/') := by
          rw [Bool.eq_iff_iff, beq_iff_eq, beq_iff_eq]
          exact Text.head?_crlf_iff (by decide) (by decide)
        by_cases hends : (c == '*' && text.head? == some '/') = true
        · rw [Bool.and_eq_true, beq_iff_eq, beq_iff_eq] at hends
          obtain ⟨rfl, hslash⟩ := hends
          obtain ⟨text, rfl⟩ := List.head?_eq_some_iff.mp hslash
          rfl
        · rw [Bool.not_eq_true] at hends
          rw [commentLength?_cons hends, commentLength?_cons (by rw [hnext, hends]), ih,
            map_crlfLength_cons hc]

theorem verbatimLength?_return (text : Text) :
    verbatimLength? ('\r' :: '\n' :: text) = (verbatimLength? text).map (· + 2) := by
  rw [verbatimLength?_cons (by decide), verbatimLength?_cons (by decide), Option.map_map]
  rfl

theorem verbatimLength?_crlf (text : Text) :
    verbatimLength? (crlf text) = (verbatimLength? text).map (crlfLength text) := by
  fun_induction verbatimLength? text with
  | case1 => rfl
  | case2 text ih =>
      rw [Text.crlf_cons_of_ne (by decide), Text.crlf_cons_of_ne (by decide), verbatimLength?_doubled,
        ih]
      cases verbatimLength? text with
      | none => rfl
      | some length => simp [Text.crlfLength_cons]
  | case3 text hnext =>
      have hclosed : ((crlf text).head? == some '"') = false := by
        rw [beq_eq_false_iff_ne, Ne, Text.head?_crlf_iff (by decide) (by decide)]
        intro hhead
        obtain ⟨rest, rfl⟩ := List.head?_eq_some_iff.mp hhead
        exact hnext rest rfl
      rw [Text.crlf_cons_of_ne (by decide), verbatimLength?_closed hclosed]
      rfl
  | case4 c text _ hquote ih =>
      have hc : c ≠ '"' := hquote
      by_cases hfeed : c = '\n'
      · rw [hfeed, Text.crlf_feed, verbatimLength?_return, ih, map_crlfLength_feed]
      · rw [Text.crlf_cons_of_ne hfeed, verbatimLength?_cons hc, ih, map_crlfLength_cons hfeed]

def keepsLine (text : Text) (length : Nat) : Bool := decide ('\n' ∉ text.take length)

theorem keepsLine_cons (hc : c ≠ '\n') (text : Text) (length : Nat) :
    keepsLine (c :: text) (length + 1) = keepsLine text length := by
  simp [keepsLine, hc.symm]

theorem map_filter_keepsLine (hc : c ≠ '\n') (found : Option Nat) (text : Text) :
    (found.filter (keepsLine text)).map (· + 1) =
      (found.map (· + 1)).filter (keepsLine (c :: text)) := by
  cases found with
  | none => rfl
  | some length => cases hkeeps : keepsLine text length <;> simp [Option.filter, keepsLine_cons hc, hkeeps]

theorem ne_escape (hlast : c = '\\' → text = [] → False)
    (hescape : ∀ d rest, c = '\\' → text = d :: rest → False) : c ≠ '\\' := by
  intro hc
  cases text with
  | nil => exact hlast hc rfl
  | cons d rest => exact hescape d rest hc rfl

/-- A backslash takes the carriage return, and the line feed behind it ends the literal. -/
theorem quotedLength?_crlf (hreturn : quote ≠ '\r') (hfeed : quote ≠ '\n') (h : '\r' ∉ text) :
    quotedLength? quote (crlf text) = (quotedLength? quote text).filter (keepsLine text) := by
  have hends : ∀ text : Text, quotedLength? quote ('\n' :: text) = none := by
    intro text
    rw [quotedLength?_cons (by decide), if_neg hfeed.symm, if_pos rfl]
  fun_induction quotedLength? quote text with
  | case1 => rfl
  | case2 => rfl
  | case3 c text ih =>
      rw [Text.crlf_cons_of_ne (by decide)]
      by_cases hc : c = '\n'
      · rw [hc, Text.crlf_feed, quotedLength?_escape, hends]
        cases quotedLength? quote text with
        | none => rfl
        | some length => simp [Option.filter, keepsLine]
      · have hmap : ∀ found : Option Nat, found.map (· + 2) = (found.map (· + 1)).map (· + 1) := by
          intro found
          cases found <;> rfl
        rw [Text.crlf_cons_of_ne hc, quotedLength?_escape, ih (fun hmem => h (by simp [hmem])), hmap,
          hmap, map_filter_keepsLine hc, map_filter_keepsLine (c := '\\') (by decide)]
  | case4 text hlast hescape =>
      have hslash := ne_escape hlast hescape
      rw [Text.crlf_cons_of_ne hfeed, quotedLength?_cons hslash, if_pos rfl]
      simp [Option.filter, keepsLine, hfeed.symm]
  | case5 text _ _ hne =>
      rw [Text.crlf_feed, quotedLength?_cons (by decide), if_neg hreturn.symm, if_neg (by decide), hends]
      rfl
  | case6 c text hlast hescape hc hne ih =>
      have hslash := ne_escape hlast hescape
      rw [Text.crlf_cons_of_ne hne, quotedLength?_cons hslash, if_neg hc, if_neg hne,
        ih (fun hmem => h (List.mem_cons_of_mem _ hmem)), map_filter_keepsLine hne]

theorem take_quoteRun (text : Text) : text.take (quoteRun text) = text.takeWhile (· == '"') := by
  conv => lhs; arg 2; rw [← List.takeWhile_append_dropWhile (p := (· == '"')) (l := text)]
  exact List.take_left

theorem crlfLength_quoteRun (text : Text) : crlfLength text (quoteRun text) = quoteRun text := by
  refine Text.crlfLength_eq_self ?_ (quoteRun_le text)
  rw [take_quoteRun]
  intro hmem
  have hquotes : (text.takeWhile (· == '"')).all (· == '"') = true := List.all_takeWhile
  exact absurd (List.all_eq_true.mp hquotes _ hmem) (by decide)

theorem fencedLength?_crlf (hfence : 1 ≤ fence) (text : Text) :
    fencedLength? fence (crlf text) = (fencedLength? fence text).map (crlfLength text) := by
  induction text with
  | nil => rfl
  | cons c text ih =>
      by_cases hc : c = '\n'
      · have hreturn : quoteRun ('\r' :: '\n' :: crlf text) = 0 := rfl
        have hrun : quoteRun ('\n' :: crlf text) = 0 := rfl
        have hrun' : quoteRun ('\n' :: text) = 0 := rfl
        have hlt : ¬fence ≤ 0 := by omega
        rw [hc, Text.crlf_feed, fencedLength?, hreturn, if_neg hlt, fencedLength?, hrun, if_neg hlt, ih,
          fencedLength?, hrun', if_neg hlt, ← map_crlfLength_feed, Option.map_map]
        rfl
      · have hrun : quoteRun (c :: crlf text) = quoteRun (c :: text) := by
          rw [← Text.crlf_cons_of_ne hc, quoteRun_crlf]
        rw [Text.crlf_cons_of_ne hc, fencedLength?, hrun, fencedLength?]
        by_cases hcloses : fence ≤ quoteRun (c :: text)
        · rw [if_pos hcloses, if_pos hcloses, Option.map_some, crlfLength_quoteRun]
        · rw [if_neg hcloses, if_neg hcloses, ih, map_crlfLength_cons hc]

theorem numberLength_crlf (text : Text) :
    numberLength (crlf text) = numberLength text ∧
      crlfLength text (numberLength text) = numberLength text := by
  fun_induction numberLength text with
  | case1 => exact ⟨rfl, rfl⟩
  | case2 => exact ⟨rfl, rfl⟩
  | case3 c text hrange hgoes ih =>
      have hc : c ≠ '\n' := by
        rintro rfl
        exact absurd hgoes (by decide)
      have hnext : ¬(c = '.' ∧ (crlf text).head? = some '.') := by
        rw [Text.head?_crlf_iff (by decide) (by decide)]
        rintro ⟨rfl, hdot⟩
        obtain ⟨rest, rfl⟩ := List.head?_eq_some_iff.mp hdot
        exact hrange rest rfl rfl
      rw [Text.crlf_cons_of_ne hc, numberLength_cons hnext, if_pos hgoes, ih.1,
        Text.crlfLength_cons hc, ih.2]
      exact ⟨rfl, rfl⟩
  | case4 c text hrange hends =>
      refine ⟨?_, rfl⟩
      by_cases hc : c = '\n'
      · rw [hc]
        rfl
      · have hnext : ¬(c = '.' ∧ (crlf text).head? = some '.') := by
          rintro ⟨rfl, -⟩
          exact hends (by decide)
        rw [Text.crlf_cons_of_ne hc, numberLength_cons hnext, if_neg hends]

theorem identifierLength_crlf (text : Text) :
    identifierLength (crlf text) = identifierLength text ∧
      crlfLength text (identifierLength text) = identifierLength text := by
  induction text with
  | nil => exact ⟨rfl, rfl⟩
  | cons c text ih =>
      by_cases hc : c = '\n'
      · rw [hc]
        exact ⟨rfl, rfl⟩
      · rw [Text.crlf_cons_of_ne hc]
        rw [identifierLength, identifierLength] at ih ⊢
        by_cases hword : isIdentifierChar c = true
        · rw [List.takeWhile_cons_of_pos hword, List.takeWhile_cons_of_pos hword, List.length_cons,
            List.length_cons, Text.crlfLength_cons hc, ih.1, ih.2]
          exact ⟨rfl, rfl⟩
        · rw [List.takeWhile_cons_of_neg hword, List.takeWhile_cons_of_neg hword]
          exact ⟨rfl, rfl⟩

/-! ## String literals -/

theorem stringLength_of_raw (hraw : 3 ≤ quoteRun text) :
    stringLength text = .ok length ↔
      ∃ inner, fencedLength? (quoteRun text) (text.drop (quoteRun text)) = some inner ∧
        quoteRun text + inner = length := by
  rw [stringLength, if_pos hraw]
  cases fencedLength? (quoteRun text) (text.drop (quoteRun text)) <;> simp

theorem stringLength_of_quoted (hquoted : quoteRun text < 3) :
    stringLength text = .ok length ↔
      ∃ inner, quotedLength? '"' (text.drop 1) = some inner ∧ 1 + inner = length := by
  rw [stringLength, if_neg (Nat.not_le_of_gt hquoted)]
  cases quotedLength? '"' (text.drop 1) <;> simp

theorem quoteRun_take (text : Text) (length : Nat) :
    quoteRun (text.take length) = min length (quoteRun text) := by
  induction text generalizing length with
  | nil => simp [quoteRun]
  | cons c text ih =>
      cases length with
      | zero => simp [quoteRun]
      | succ length =>
          rw [List.take_succ_cons, quoteRun_cons, quoteRun_cons, ih]
          split <;> omega

/-- A literal between single quotes, or one that neither an `@` nor a run of three quotes opens. Such a
literal ends on its line, unless a backslash carries it on. -/
def isQuoted (kind : TokenKind) (lexeme : Text) : Bool :=
  match kind with
  | .character => true
  | .string => !(lexeme.takeWhile isMark).contains '@' && decide (quoteRun (lexeme.dropWhile isMark) < 3)
  | _ => false

/-- A token that is no literal of one line with a line feed in it. -/
def Kept (kind : TokenKind) (lexeme : Text) : Prop := isQuoted kind lexeme = true → '\n' ∉ lexeme

instance (kind : TokenKind) (lexeme : Text) : Decidable (Kept kind lexeme) :=
  inferInstanceAs (Decidable (isQuoted kind lexeme = true → '\n' ∉ lexeme))

theorem isQuoted_append (hmarks : marks.all isMark) (text : Text) :
    isQuoted .string (marks ++ '"' :: text) =
      (!marks.contains '@' && decide (quoteRun ('"' :: text) < 3)) := by
  have hdrop : (marks ++ '"' :: text).dropWhile isMark = '"' :: text := by
    rw [List.dropWhile_append_of_pos (List.all_eq_true.mp hmarks)]
    rfl
  rw [isQuoted, takeWhile_isMark hmarks, hdrop]

theorem quoteRun_quote_crlf (text : Text) : quoteRun ('"' :: crlf text) = quoteRun ('"' :: text) := by
  rw [← Text.crlf_cons_of_ne (by decide), quoteRun_crlf]

theorem stringLength_crlf_of_quoted (hquoted : quoteRun ('"' :: text) < 3) (h : '\r' ∉ text) :
    stringLength ('"' :: crlf text) = .ok length ↔
      ∃ whole, stringLength ('"' :: text) = .ok whole ∧ '\n' ∉ ('"' :: text).take whole ∧
        crlfLength ('"' :: text) whole = length := by
  have hkeeps : ∀ inner, '\n' ∉ ('"' :: text).take (1 + inner) ↔ keepsLine text inner = true := by
    intro inner
    rw [Nat.add_comm, keepsLine, decide_eq_true_iff]
    simp
  have hself : ∀ inner, quotedLength? '"' text = some inner → keepsLine text inner = true →
      crlfLength ('"' :: text) (1 + inner) = 1 + inner := by
    intro inner hinner hline
    refine Text.crlfLength_eq_self ((hkeeps inner).mpr hline) ?_
    have hle := quotedLength?_le hinner
    rw [List.length_cons]
    omega
  rw [stringLength_of_quoted (by rwa [quoteRun_quote_crlf]), List.drop_one, List.tail_cons,
    quotedLength?_crlf (by decide) (by decide) h]
  constructor
  · rintro ⟨inner, hfound, rfl⟩
    obtain ⟨hinner, hline⟩ := Option.filter_eq_some_iff.mp hfound
    exact ⟨1 + inner, (stringLength_of_quoted hquoted).mpr ⟨inner, hinner, rfl⟩,
      (hkeeps inner).mpr hline, hself inner hinner hline⟩
  · rintro ⟨whole, hwhole, hline, rfl⟩
    obtain ⟨inner, hinner, rfl⟩ := (stringLength_of_quoted hquoted).mp hwhole
    have hline' := (hkeeps inner).mp hline
    exact ⟨inner, Option.filter_eq_some_iff.mpr ⟨hinner, hline'⟩, (hself inner hinner hline').symm⟩

theorem stringLength_crlf_of_raw (hraw : 3 ≤ quoteRun ('"' :: text)) :
    stringLength ('"' :: crlf text) = .ok length ↔
      ∃ whole, stringLength ('"' :: text) = .ok whole ∧ crlfLength ('"' :: text) whole = length := by
  have hsum : ∀ inner, crlfLength ('"' :: text) (quoteRun ('"' :: text) + inner) =
      quoteRun ('"' :: text) + crlfLength (('"' :: text).drop (quoteRun ('"' :: text))) inner := by
    intro inner
    rw [Text.crlfLength_add, crlfLength_quoteRun]
  have hdrop : ('"' :: crlf text).drop (quoteRun ('"' :: text)) =
      crlf (('"' :: text).drop (quoteRun ('"' :: text))) := by
    rw [← Text.drop_crlfLength, crlfLength_quoteRun, Text.crlf_cons_of_ne (by decide)]
  rw [stringLength_of_raw (by rwa [quoteRun_quote_crlf]), quoteRun_quote_crlf, hdrop,
    fencedLength?_crlf (by omega)]
  constructor
  · rintro ⟨inner, hfound, rfl⟩
    obtain ⟨inner, hinner, rfl⟩ := Option.map_eq_some_iff.mp hfound
    exact ⟨_, (stringLength_of_raw hraw).mpr ⟨inner, hinner, rfl⟩, hsum inner⟩
  · rintro ⟨whole, hwhole, rfl⟩
    obtain ⟨inner, hinner, rfl⟩ := (stringLength_of_raw hraw).mp hwhole
    exact ⟨_, Option.map_eq_some_iff.mpr ⟨inner, hinner, rfl⟩, (hsum inner).symm⟩

theorem stringLength_crlf (h : '\r' ∉ text) :
    stringLength ('"' :: crlf text) = .ok length ↔
      ∃ whole, stringLength ('"' :: text) = .ok whole ∧
        (quoteRun (('"' :: text).take whole) < 3 → '\n' ∉ ('"' :: text).take whole) ∧
        crlfLength ('"' :: text) whole = length := by
  rcases Nat.lt_or_ge (quoteRun ('"' :: text)) 3 with hquoted | hraw
  · have hshort : ∀ whole, quoteRun (('"' :: text).take whole) < 3 := fun whole => by
      rw [quoteRun_take]
      omega
    rw [stringLength_crlf_of_quoted hquoted h]
    simp only [hshort, true_imp_iff]
  · have hlong : ∀ whole, stringLength ('"' :: text) = .ok whole →
        ¬quoteRun (('"' :: text).take whole) < 3 := by
      intro whole hwhole
      obtain ⟨inner, -, rfl⟩ := (stringLength_of_raw hraw).mp hwhole
      rw [quoteRun_take]
      omega
    rw [stringLength_crlf_of_raw hraw]
    constructor
    · rintro ⟨whole, hwhole, hlength⟩
      exact ⟨whole, hwhole, fun hshort => absurd hshort (hlong whole hwhole), hlength⟩
    · rintro ⟨whole, hwhole, -, hlength⟩
      exact ⟨whole, hwhole, hlength⟩

theorem markedStringLength_of_verbatim (hmarks : marks.all isMark) (hat : marks.contains '@' = true) :
    markedStringLength (marks ++ '"' :: text) = .ok length ↔
      ∃ inner, verbatimLength? text = some inner ∧ marks.length + (1 + inner) = length := by
  rw [markedStringLength_append hmarks, if_pos hat]
  cases verbatimLength? text <;> simp [Nat.add_assoc]

theorem markedStringLength_of_plain (hmarks : marks.all isMark) (hat : marks.contains '@' = false) :
    markedStringLength (marks ++ '"' :: text) = .ok length ↔
      ∃ whole, stringLength ('"' :: text) = .ok whole ∧ marks.length + whole = length := by
  rw [markedStringLength_append hmarks, if_neg (by rw [hat]; decide)]
  cases stringLength ('"' :: text) <;> simp

theorem not_mem_marks (hmarks : marks.all isMark) : '\n' ∉ marks := by
  intro hmem
  exact absurd (List.all_eq_true.mp hmarks _ hmem) (by decide)

/-- What a marked literal takes, split behind its marks. -/
theorem kept_take_append (hmarks : marks.all isMark) (text : Text) {whole : Nat} (hwhole : 1 ≤ whole) :
    Kept .string ((marks ++ '"' :: text).take (marks.length + whole)) ↔
      (marks.contains '@' = false → quoteRun (('"' :: text).take whole) < 3 →
        '\n' ∉ ('"' :: text).take whole) := by
  obtain ⟨whole, rfl⟩ := Nat.exists_eq_add_of_le' hwhole
  have hline := not_mem_marks hmarks
  rw [List.take_length_add_append, List.take_succ_cons, Kept, isQuoted_append hmarks]
  simp [hline]

theorem markedStringLength_crlf (hmarks : marks.all isMark) (h : '\r' ∉ text) :
    markedStringLength (marks ++ '"' :: crlf text) = .ok length ↔
      ∃ whole, markedStringLength (marks ++ '"' :: text) = .ok whole ∧
        Kept .string ((marks ++ '"' :: text).take whole) ∧
        crlfLength (marks ++ '"' :: text) whole = length := by
  have hline := not_mem_marks hmarks
  have hlength : ∀ whole, crlfLength (marks ++ '"' :: text) (marks.length + whole) =
      marks.length + crlfLength ('"' :: text) whole := fun whole => by
    rw [Text.crlfLength_add, Text.crlfLength_append, Text.crlf_eq_self hline, List.drop_left]
  have hquote : ∀ inner, crlfLength ('"' :: text) (1 + inner) = 1 + crlfLength text inner := by
    intro inner
    rw [Nat.add_comm 1, Text.crlfLength_cons (by decide), Nat.add_comm]
  cases hat : marks.contains '@' with
  | true =>
      rw [markedStringLength_of_verbatim hmarks hat, verbatimLength?_crlf]
      constructor
      · rintro ⟨inner, hfound, rfl⟩
        obtain ⟨inner, hinner, rfl⟩ := Option.map_eq_some_iff.mp hfound
        refine ⟨_, (markedStringLength_of_verbatim hmarks hat).mpr ⟨inner, hinner, rfl⟩,
          (kept_take_append hmarks text (by omega)).mpr fun hplain => ?_, by rw [hlength, hquote]⟩
        -- a verbatim string may go over line ends, whatever is in it
        rw [hat] at hplain
        cases hplain
      · rintro ⟨whole, hwhole, -, rfl⟩
        obtain ⟨inner, hinner, rfl⟩ := (markedStringLength_of_verbatim hmarks hat).mp hwhole
        exact ⟨_, Option.map_eq_some_iff.mpr ⟨inner, hinner, rfl⟩, by rw [hlength, hquote]⟩
  | false =>
      have hpos : ∀ whole, stringLength ('"' :: text) = .ok whole → 1 ≤ whole := fun whole hwhole =>
        (stringLength_le hwhole (List.cons_ne_nil _ _)).1
      rw [markedStringLength_of_plain hmarks hat]
      constructor
      · rintro ⟨found, hfound, rfl⟩
        obtain ⟨whole, hwhole, hkept, rfl⟩ := (stringLength_crlf h).mp hfound
        exact ⟨_, (markedStringLength_of_plain hmarks hat).mpr ⟨whole, hwhole, rfl⟩,
          (kept_take_append hmarks text (hpos whole hwhole)).mpr fun _ => hkept, hlength whole⟩
      · rintro ⟨found, hfound, hkept, rfl⟩
        obtain ⟨whole, hwhole, rfl⟩ := (markedStringLength_of_plain hmarks hat).mp hfound
        have hwhole' := (kept_take_append hmarks text (hpos whole hwhole)).mp hkept hat
        exact ⟨_, (stringLength_crlf h).mpr ⟨whole, hwhole, hwhole', rfl⟩, (hlength whole).symm⟩

theorem string_crlf (hquote : text.head? = some '"') (h : '\r' ∉ text) :
    stringLength (crlf text) = .ok length ↔
      ∃ whole, stringLength text = .ok whole ∧ Kept .string (text.take whole) ∧
        crlfLength text whole = length := by
  obtain ⟨rest, rfl⟩ := List.head?_eq_some_iff.mp hquote
  rw [Text.crlf_cons_of_ne (by decide), stringLength_crlf fun hmem => h (List.mem_cons_of_mem _ hmem)]
  have hkept : ∀ whole, stringLength ('"' :: rest) = .ok whole →
      (Kept .string (('"' :: rest).take whole) ↔
        (quoteRun (('"' :: rest).take whole) < 3 → '\n' ∉ ('"' :: rest).take whole)) := by
    intro whole hwhole
    have hmarks : ([] : Text).all isMark = true := rfl
    have hsplit := kept_take_append hmarks rest (stringLength_le hwhole (by simp)).1
    simpa using hsplit
  constructor
  · rintro ⟨whole, hwhole, hline, hlength⟩
    exact ⟨whole, hwhole, (hkept whole hwhole).mpr hline, hlength⟩
  · rintro ⟨whole, hwhole, hline, hlength⟩
    exact ⟨whole, hwhole, (hkept whole hwhole).mp hline, hlength⟩

theorem marked_crlf (hopens : opensMarkedString text = true) (h : '\r' ∉ text) :
    markedStringLength (crlf text) = .ok length ↔
      ∃ whole, markedStringLength text = .ok whole ∧ Kept .string (text.take whole) ∧
        crlfLength text whole = length := by
  obtain ⟨marks, rest, -, hmarks, rfl⟩ := exists_marks_of_opens hopens
  have hline := not_mem_marks hmarks
  rw [Text.crlf_append, Text.crlf_eq_self hline, Text.crlf_cons_of_ne (by decide)]
  exact markedStringLength_crlf hmarks fun hmem => h (by simp [hmem])

/-! ## Tokens -/

theorem alone_crlf_iff : Alone lineStart c (crlf text) ↔ Alone lineStart c text :=
  ⟨fun h => h.congr (sight_crlf text), fun h => h.congr (sight_crlf text).symm⟩

theorem opensMarkedString_crlf : opensMarkedString (c :: crlf text) = opensMarkedString (c :: text) :=
  opensMarkedString_congr (sight_crlf text)

theorem Kept.of_not_isQuoted (h : isQuoted kind lexeme = false) : Kept kind lexeme := by
  intro hquoted
  rw [h] at hquoted
  cases hquoted

theorem kept_character_iff (hc : c ≠ '\n') :
    Kept .character (c :: text.take length) ↔ keepsLine text length = true := by
  rw [keepsLine, decide_eq_true_iff, Kept]
  simp [isQuoted, hc.symm]

theorem take_cons_pred {whole : Nat} (hwhole : 1 ≤ whole) :
    (c :: text).take whole = c :: text.take (whole - 1) := by
  obtain ⟨whole, rfl⟩ := Nat.exists_eq_add_of_le' hwhole
  rfl

theorem crlfLength_cons_pred (hc : c ≠ '\n') {whole : Nat} (hwhole : 1 ≤ whole) :
    crlfLength (c :: text) whole - 1 = crlfLength text (whole - 1) := by
  obtain ⟨whole, rfl⟩ := Nat.exists_eq_add_of_le' hwhole
  rw [Text.crlfLength_cons hc, Nat.add_sub_cancel, Nat.add_sub_cancel]

theorem Heads.crlf (hc : c ≠ '\n') (h : '\r' ∉ c :: text) (hheads : Heads lineStart c text kind length)
    (hkept : Kept kind (c :: text.take length)) :
    Heads lineStart c (Text.crlf text) kind (crlfLength text length) := by
  have htext : '\r' ∉ text := fun hmem => h (List.mem_cons_of_mem _ hmem)
  have hcrlf : Text.crlf (c :: text) = c :: Text.crlf text := Text.crlf_cons_of_ne hc text
  have hnext : ∀ mark, mark ≠ '\r' → mark ≠ '\n' → text.head? = some mark →
      (Text.crlf text).head? = some mark := fun mark hreturn hfeed =>
    (Text.head?_crlf_iff hreturn hfeed).mpr
  cases hheads with
  | preprocessor hhash hstart =>
      obtain ⟨hline, hself⟩ := lineLength_crlf htext
      rw [hself, ← hline]
      exact .preprocessor hhash hstart
  | lineComment hslash hslashes =>
      obtain ⟨hline, hself⟩ := lineLength_crlf htext
      rw [hself, ← hline]
      exact .lineComment hslash (hnext _ (by decide) (by decide) hslashes)
  | @blockComment inner hslash hstar hinner =>
      have hstar' := hnext _ (by decide) (by decide) hstar
      obtain ⟨rest, rfl⟩ := List.head?_eq_some_iff.mp hstar
      rw [Nat.add_comm, Text.crlfLength_cons (by decide), Nat.add_comm]
      refine .blockComment hslash hstar' ?_
      rw [Text.crlf_cons_of_ne (by decide), List.drop_one, List.tail_cons, commentLength?_crlf]
      exact Option.map_eq_some_iff.mpr ⟨inner, hinner, rfl⟩
  | @string whole hquote hwhole =>
      -- lengths of strings count the quote, and what is taken does not
      have hpos := (stringLength_le hwhole (List.cons_ne_nil _ _)).1
      rw [← take_cons_pred hpos] at hkept
      rw [← crlfLength_cons_pred hc hpos]
      refine .string hquote ?_
      rw [← hcrlf]
      exact (string_crlf (by rw [hquote]; rfl) h).mpr ⟨whole, hwhole, hkept, rfl⟩
  | @marked whole hopens hwhole =>
      have hpos := (markedStringLength_le hwhole hopens).1
      rw [← take_cons_pred hpos] at hkept
      rw [← crlfLength_cons_pred hc hpos]
      refine .marked (opensMarkedString_crlf.trans hopens) ?_
      rw [← hcrlf]
      exact (marked_crlf hopens h).mpr ⟨whole, hwhole, hkept, rfl⟩
  | character hquote hlength =>
      -- a literal that was kept has no line feed, so that nothing is put into it
      have hline := (kept_character_iff hc).mp hkept
      have hself : crlfLength text length = length :=
        Text.crlfLength_eq_self (of_decide_eq_true hline) (quotedLength?_le hlength)
      rw [hself]
      refine .character hquote ?_
      rw [quotedLength?_crlf (by decide) (by decide) htext]
      exact Option.filter_eq_some_iff.mpr ⟨hlength, hline⟩
  | number hdigit =>
      obtain ⟨hnumber, hself⟩ := numberLength_crlf text
      rw [hself, ← hnumber]
      exact .number hdigit
  | identifier hdigit hword =>
      obtain ⟨hidentifier, hself⟩ := identifierLength_crlf text
      rw [hself, ← hidentifier]
      refine .identifier hdigit ?_
      rw [any_head?_eq_of_sight (sight_crlf text)]
      exact hword
  | doubleColon hcolon hcolons =>
      have hcolons' := hnext _ (by decide) (by decide) hcolons
      obtain ⟨rest, rfl⟩ := List.head?_eq_some_iff.mp hcolons
      exact .doubleColon hcolon hcolons'
  | punctuation halone => exact .punctuation (alone_crlf_iff.mpr halone)

theorem Heads.of_crlf (hc : c ≠ '\n') (h : '\r' ∉ c :: text)
    (hheads : Heads lineStart c (Text.crlf text) kind length) :
    ∃ taken, Heads lineStart c text kind taken ∧ Kept kind (c :: text.take taken) ∧
      crlfLength text taken = length := by
  have htext : '\r' ∉ text := fun hmem => h (List.mem_cons_of_mem _ hmem)
  have hcrlf : Text.crlf (c :: text) = c :: Text.crlf text := Text.crlf_cons_of_ne hc text
  have hnext : ∀ mark, mark ≠ '\r' → mark ≠ '\n' → (Text.crlf text).head? = some mark →
      text.head? = some mark := fun mark hreturn hfeed =>
    (Text.head?_crlf_iff hreturn hfeed).mp
  cases hheads with
  | preprocessor hhash hstart =>
      obtain ⟨hline, hself⟩ := lineLength_crlf htext
      exact ⟨_, .preprocessor hhash hstart, .of_not_isQuoted rfl, hself.trans hline.symm⟩
  | lineComment hslash hslashes =>
      obtain ⟨hline, hself⟩ := lineLength_crlf htext
      exact ⟨_, .lineComment hslash (hnext _ (by decide) (by decide) hslashes), .of_not_isQuoted rfl,
        hself.trans hline.symm⟩
  | blockComment hslash hstar hfound =>
      have hstar' := hnext _ (by decide) (by decide) hstar
      obtain ⟨rest, rfl⟩ := List.head?_eq_some_iff.mp hstar'
      rw [Text.crlf_cons_of_ne (by decide), List.drop_one, List.tail_cons, commentLength?_crlf] at hfound
      obtain ⟨inner, hinner, rfl⟩ := Option.map_eq_some_iff.mp hfound
      refine ⟨1 + inner, .blockComment hslash hstar' hinner, .of_not_isQuoted rfl, ?_⟩
      rw [Nat.add_comm, Text.crlfLength_cons (by decide), Nat.add_comm]
  | string hquote hfound =>
      rw [← hcrlf] at hfound
      obtain ⟨whole, hwhole, hkept, rfl⟩ := (string_crlf (by rw [hquote]; rfl) h).mp hfound
      have hpos := (stringLength_le hwhole (List.cons_ne_nil _ _)).1
      rw [take_cons_pred hpos] at hkept
      exact ⟨whole - 1, .string hquote hwhole, hkept, (crlfLength_cons_pred hc hpos).symm⟩
  | marked hopens hfound =>
      rw [opensMarkedString_crlf] at hopens
      rw [← hcrlf] at hfound
      obtain ⟨whole, hwhole, hkept, rfl⟩ := (marked_crlf hopens h).mp hfound
      have hpos := (markedStringLength_le hwhole hopens).1
      rw [take_cons_pred hpos] at hkept
      exact ⟨whole - 1, .marked hopens hwhole, hkept, (crlfLength_cons_pred hc hpos).symm⟩
  | character hquote hlength =>
      rw [quotedLength?_crlf (by decide) (by decide) htext] at hlength
      obtain ⟨hlength, hline⟩ := Option.filter_eq_some_iff.mp hlength
      exact ⟨length, .character hquote hlength, (kept_character_iff hc).mpr hline,
        Text.crlfLength_eq_self (of_decide_eq_true hline) (quotedLength?_le hlength)⟩
  | number hdigit =>
      obtain ⟨hnumber, hself⟩ := numberLength_crlf text
      exact ⟨_, .number hdigit, .of_not_isQuoted rfl, hself.trans hnumber.symm⟩
  | identifier hdigit hword =>
      obtain ⟨hidentifier, hself⟩ := identifierLength_crlf text
      rw [any_head?_eq_of_sight (sight_crlf text)] at hword
      exact ⟨_, .identifier hdigit hword, .of_not_isQuoted rfl, hself.trans hidentifier.symm⟩
  | doubleColon hcolon hcolons =>
      have hcolons' := hnext _ (by decide) (by decide) hcolons
      obtain ⟨rest, rfl⟩ := List.head?_eq_some_iff.mp hcolons'
      exact ⟨1, .doubleColon hcolon hcolons', .of_not_isQuoted rfl, rfl⟩
  | punctuation halone => exact ⟨0, .punctuation (alone_crlf_iff.mp halone), .of_not_isQuoted rfl, rfl⟩

end Scan

end CSharpTidy
