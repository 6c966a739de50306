import CSharpTidy.Proofs.Format.Trailing
import CSharpTidy.Proofs.Token.Closing
import Mathlib.Data.List.Forall2

/-!
# Trimming within a token

A token can hold the end of a line, or stand in front of one. Words, numbers and punctuation hold no
blanks, no blank of a character literal stands at the end of a line, and strings are left alone. Only
comments and preprocessor lines change, line by line.
-/

namespace CSharpTidy

namespace Spacing

open Scan (breaks carriage sight)

variable {c quote : Char} {text tail rest after after' lexeme line : Text} {length : Nat}
  {trim quoted lineStart : Bool} {kind : TokenKind}

/-! ## Lines -/

def LineTrimmed (line line' : Text) : Prop :=
  ∃ kept blanks ending, line = kept ++ (blanks ++ ending) ∧ line' = kept ++ ending ∧
    blanks.all isBlank = true ∧ (ending = [] ∨ ending = ['\r'])

/-- A text of which lines lose blanks at their ends, and nothing else. -/
def Trimmed (text text' : Text) : Prop := List.Forall₂ LineTrimmed text.lines text'.lines

theorem LineTrimmed.refl (line : Text) : LineTrimmed line line :=
  ⟨line, [], [], by simp, by simp, rfl, .inl rfl⟩

theorem Trimmed.refl (text : Text) : Trimmed text text :=
  List.forall₂_same.mpr fun line _ => LineTrimmed.refl line

/-- What is left of a text in which all is marked alike. -/
def pruned (trim quoted : Bool) (after text : Text) : Text :=
  plain (strip trim after (tag quoted text))

theorem strip_tag (trim quoted : Bool) (after text : Text) :
    strip trim after (tag quoted text) = tag quoted (pruned trim quoted after text) := by
  rw [pruned]
  induction text with
  | nil => rfl
  | cons c text ih =>
      change strip trim after ((c, quoted) :: tag quoted text) = tag quoted
        (plain (strip trim after ((c, quoted) :: tag quoted text)))
      rw [strip]
      split
      · exact ih
      · exact congrArg ((c, quoted) :: ·) ih

theorem pruned_cons (trim quoted : Bool) (after : Text) (c : Char) (text : Text) :
    pruned trim quoted after (c :: text) =
      if trim && isBlank c && !quoted && trims (text ++ after) then pruned trim quoted after text
      else c :: pruned trim quoted after text := by
  have hplain : plain (tag quoted text) = text := plain_tag quoted text
  change plain (strip trim after ((c, quoted) :: tag quoted text)) = _
  rw [strip, hplain]
  split <;> rfl

theorem pruned_cons_of_not_isBlank (h : isBlank c = false) (trim quoted : Bool) (after text : Text) :
    pruned trim quoted after (c :: text) = c :: pruned trim quoted after text := by
  rw [pruned_cons]
  simp [h]

theorem pruned_append (trim quoted : Bool) (after first second : Text) :
    pruned trim quoted after (first ++ second) =
      pruned trim quoted (second ++ after) first ++ pruned trim quoted after second := by
  rw [pruned, tag_append, strip_append, plain_append, plain_tag]
  rfl

theorem pruned_of_not_isBlank (h : ∀ c ∈ text, isBlank c = false) (trim quoted : Bool)
    (after : Text) : pruned trim quoted after text = text := by
  induction text with
  | nil => rfl
  | cons c text ih =>
      rw [pruned_cons_of_not_isBlank (h c List.mem_cons_self),
        ih fun d hmem => h d (List.mem_cons_of_mem _ hmem)]

theorem mem_of_mem_pruned (h : c ∈ pruned trim quoted after text) : c ∈ text := by
  induction text with
  | nil => exact h
  | cons d text ih =>
      rw [pruned_cons] at h
      split at h
      · exact List.mem_cons_of_mem _ (ih h)
      · rcases List.mem_cons.mp h with rfl | h
        · exact List.mem_cons_self
        · exact List.mem_cons_of_mem _ (ih h)

/-- Nothing but the carriage return is left of blanks at the end of a line. -/
theorem pruned_of_trims (hline : '\n' ∉ line) (h : trims (line ++ after) = true) :
    ∃ blanks ending, line = blanks ++ ending ∧ pruned true false after line = ending ∧
      blanks.all isBlank = true ∧ (ending = [] ∨ ending = ['\r']) := by
  induction line with
  | nil => exact ⟨[], [], rfl, rfl, rfl, .inl rfl⟩
  | cons c line ih =>
      rw [List.mem_cons, not_or] at hline
      rw [List.cons_append, trims_cons] at h
      split at h
      · next hblank =>
          obtain ⟨blanks, ending, rfl, hpruned, hblanks, hending⟩ := ih hline.2 h
          refine ⟨c :: blanks, ending, rfl, ?_, by simp [hblank, hblanks], hending⟩
          rw [pruned_cons, hblank, h]
          exact hpruned
      · next hblank =>
          have hfeed : (c == '\n') = false := beq_eq_false_iff_ne.mpr fun h => hline.1 h.symm
          rw [ends, breaks, carriage, hfeed, Bool.false_or, Bool.and_eq_true, beq_iff_eq] at h
          obtain ⟨rfl, hbreaks⟩ := h
          cases line with
          | nil => exact ⟨[], ['\r'], rfl, pruned_cons_of_not_isBlank rfl _ _ _ _, rfl, .inr rfl⟩
          | cons d line =>
              obtain rfl : d = '\n' := by simpa [breaks] using hbreaks
              exact absurd List.mem_cons_self hline.2

theorem lineTrimmed_pruned (hline : '\n' ∉ line) (trim quoted : Bool) (after : Text) :
    LineTrimmed line (pruned trim quoted after line) := by
  induction line with
  | nil => exact LineTrimmed.refl []
  | cons c line ih =>
      have hrest : '\n' ∉ line := fun hmem => hline (List.mem_cons_of_mem _ hmem)
      rw [pruned_cons]
      split
      · next hremoved =>
          simp only [Bool.and_eq_true, Bool.not_eq_true'] at hremoved
          obtain ⟨⟨⟨rfl, hblank⟩, rfl⟩, htrims⟩ := hremoved
          obtain ⟨blanks, ending, rfl, hpruned, hblanks, hending⟩ := pruned_of_trims hrest htrims
          exact ⟨[], c :: blanks, ending, rfl, hpruned, by simp [hblank, hblanks], hending⟩
      · obtain ⟨kept, blanks, ending, rfl, hpruned, hblanks, hending⟩ := ih hrest
        exact ⟨c :: kept, blanks, ending, rfl, by rw [hpruned]; rfl, hblanks, hending⟩

theorem trimmed_pruned (trim quoted : Bool) (after text : Text) :
    Trimmed text (pruned trim quoted after text) := by
  obtain ⟨line, rest, rfl, hline, hrest⟩ := Scan.exists_line text
  cases rest with
  | nil =>
      rw [List.append_nil]
      have hpruned : '\n' ∉ pruned trim quoted after line := fun hmem =>
        hline (mem_of_mem_pruned hmem)
      rw [Trimmed, Text.lines_of_not_mem hline, Text.lines_of_not_mem hpruned]
      exact .cons (lineTrimmed_pruned hline trim quoted after) .nil
  | cons d rest =>
      obtain rfl : d = '\n' := by simpa [breaks] using hrest
      rw [pruned_append, pruned_cons_of_not_isBlank rfl]
      have hpruned : '\n' ∉ pruned trim quoted ('\n' :: rest ++ after) line := fun hmem =>
        hline (mem_of_mem_pruned hmem)
      rw [Trimmed, Text.lines_append hline, Text.lines_append hpruned]
      exact .cons (lineTrimmed_pruned hline trim quoted _) (trimmed_pruned trim quoted after rest)
termination_by text.length

/-! ## Tokens that stay -/

def isTight : TokenKind → Bool
  | .identifier | .punctuation _ | .doubleColon | .number => true
  | _ => false

theorem not_isBlank_of_number {tail : Text} (h : Scan.numberLength (tail ++ rest) = tail.length) :
    ∀ c ∈ tail, isBlank c = false := by
  induction tail with
  | nil => exact fun _ hmem => by cases hmem
  | cons c tail ih =>
      by_cases hrange : c = '.' ∧ (tail ++ rest).head? = some '.'
      · obtain ⟨rfl, hhead⟩ := hrange
        obtain ⟨after, hafter⟩ := List.head?_eq_some_iff.mp hhead
        rw [List.cons_append, hafter, Scan.numberLength_range] at h
        cases h
      · rw [List.cons_append, Scan.numberLength_cons hrange] at h
        split at h
        · next hc =>
            intro d hmem
            rcases List.mem_cons.mp hmem with rfl | hmem
            · rw [Bool.eq_false_iff]
              intro hblank
              simp only [isBlank, Bool.or_eq_true, beq_iff_eq] at hblank
              rcases hblank with rfl | rfl <;> exact absurd hc (by decide)
            · exact ih (by simpa using h) d hmem
        · cases h

theorem not_isBlank_of_identifier {tail : Text}
    (h : Scan.identifierLength (tail ++ rest) = tail.length) : ∀ c ∈ tail, isBlank c = false := by
  induction tail with
  | nil => exact fun _ hmem => by cases hmem
  | cons c tail ih =>
      rw [Scan.identifierLength, List.cons_append, List.takeWhile_cons] at h
      split at h
      · next hc =>
          intro d hmem
          rcases List.mem_cons.mp hmem with rfl | hmem
          · rw [Bool.eq_false_iff]
            intro hblank
            rw [Scan.isIdentifierChar_of_isBlank (isBlank_of_spacing hblank)] at hc
            cases hc
          · refine ih ?_ d hmem
            rw [Scan.identifierLength]
            simpa using h
      · cases h

theorem not_isBlank_of_scan (h : Scan.isBlank c = false) : isBlank c = false := by
  rw [Bool.eq_false_iff]
  intro hblank
  rw [isBlank_of_spacing hblank] at h
  cases h

theorem not_isBlank_of_isTight (h : Scan.Takes lineStart kind lexeme rest)
    (hkind : isTight kind = true) : ∀ c ∈ lexeme, isBlank c = false := by
  obtain ⟨c, tail, rfl, hblank, hhead⟩ := h
  have hfirst := not_isBlank_of_scan hblank
  have htail : ∀ d ∈ tail, isBlank d = false := by
    generalize hlength : tail.length = length at hhead
    cases Scan.head_eq_ok_iff.mp hhead with
    | number => exact not_isBlank_of_number hlength.symm
    | identifier => exact not_isBlank_of_identifier hlength.symm
    | doubleColon _ hnext =>
        obtain ⟨d, rfl⟩ := List.length_eq_one_iff.mp hlength
        obtain rfl : d = ':' := Option.some.inj hnext
        intro d hmem
        rw [List.mem_singleton.mp hmem]
        rfl
    | punctuation =>
        rw [List.eq_nil_of_length_eq_zero hlength]
        exact fun _ hmem => by cases hmem
    | _ => cases hkind
  intro d hmem
  rcases List.mem_cons.mp hmem with rfl | hmem
  · exact hfirst
  · exact htail d hmem

/-- A literal is not closed where only blanks are left of the line. -/
theorem trims_of_quotedLength? (hquote : isBlank quote = false) (hfeed : quote ≠ '\n')
    (hreturn : quote ≠ '\r') (h : Scan.quotedLength? quote text = some length) :
    trims text = false := by
  induction text generalizing length with
  | nil => cases h
  | cons c text ih =>
      by_cases hc : c = '\\'
      · subst hc
        rfl
      · rw [Scan.quotedLength?_cons hc] at h
        split at h
        · next hclosed =>
            subst hclosed
            rw [trims_cons, if_neg (by simp [hquote]), ends_of_ne hfeed hreturn]
        · split at h
          · cases h
          · next hline =>
              obtain ⟨inner, hinner, -⟩ := Option.map_eq_some_iff.mp h
              have hrest := ih hinner
              rw [trims_cons]
              split
              · exact hrest
              · rw [ends, breaks, carriage, beq_eq_false_iff_ne.mpr hline, Bool.false_or]
                cases hbreaks : breaks text with
                | false => rw [Bool.and_false]
                | true =>
                    rw [trims_of_ends (by rw [ends, hbreaks, Bool.true_or])] at hrest
                    cases hrest

/-- No blank of a literal on one line stands at the end of a line. -/
theorem pruned_of_quotedLength? (hquote : isBlank quote = false) (hfeed : quote ≠ '\n')
    (hreturn : quote ≠ '\r') {tail : Text}
    (h : Scan.quotedLength? quote (tail ++ after) = some tail.length) (trim quoted : Bool) :
    pruned trim quoted after tail = tail := by
  -- a blank in front of more of the literal does not end its line
  have hkept : ∀ (c : Char) (tail : Text),
      Scan.quotedLength? quote (tail ++ after) = some tail.length →
        pruned trim quoted after (c :: tail) = c :: pruned trim quoted after tail := by
    intro c tail hrest
    rw [pruned_cons, trims_of_quotedLength? hquote hfeed hreturn hrest, Bool.and_false]
    rfl
  match tail with
  | [] => rfl
  | c :: tail =>
      -- a backslash takes the next character along, so that two are taken off at once
      by_cases hc : c = '\\'
      · subst hc
        rw [pruned_cons_of_not_isBlank rfl]
        match tail with
        | [] =>
            cases after with
            | nil => cases h
            | cons d after =>
                rw [List.cons_append, List.nil_append, Scan.quotedLength?_escape] at h
                obtain ⟨inner, -, hinner⟩ := Option.map_eq_some_iff.mp h
                simp only [List.length_cons, List.length_nil] at hinner
                omega
        | d :: tail =>
            rw [List.cons_append, List.cons_append, Scan.quotedLength?_escape] at h
            obtain ⟨inner, hinner, hlength⟩ := Option.map_eq_some_iff.mp h
            obtain rfl : inner = tail.length := by simpa using hlength
            rw [hkept d tail hinner,
              pruned_of_quotedLength? hquote hfeed hreturn hinner trim quoted]
      · rw [List.cons_append, Scan.quotedLength?_cons hc] at h
        split at h
        · next hclosed =>
            subst hclosed
            obtain rfl : tail = [] :=
              List.eq_nil_of_length_eq_zero (by simpa using h.symm)
            exact pruned_cons_of_not_isBlank hquote _ _ _ _
        · split at h
          · cases h
          · obtain ⟨inner, hinner, hlength⟩ := Option.map_eq_some_iff.mp h
            obtain rfl : inner = tail.length := by simpa using hlength
            rw [hkept c tail hinner,
              pruned_of_quotedLength? hquote hfeed hreturn hinner trim quoted]

theorem pruned_character (h : Scan.Takes lineStart .character lexeme after) (trim quoted : Bool) :
    pruned trim quoted after lexeme = lexeme := by
  obtain ⟨c, tail, rfl, hblank, hhead⟩ := h
  rw [pruned_cons_of_not_isBlank (not_isBlank_of_scan hblank)]
  generalize hlength : tail.length = length at hhead
  cases Scan.head_eq_ok_iff.mp hhead with
  | character hquote hquoted =>
      subst hquote hlength
      rw [pruned_of_quotedLength? rfl (by decide) (by decide) hquoted]

theorem pruned_of_not_isTrivia (h : Scan.Takes lineStart kind lexeme after)
    (hkind : kind.isTrivia = false) (trim : Bool) :
    pruned trim (kind == .string) after lexeme = lexeme := by
  cases kind with
  | string => rw [pruned, beq_self_eq_true, strip_quoted, plain_tag]
  | character => exact pruned_character h trim _
  | identifier => exact pruned_of_not_isBlank (not_isBlank_of_isTight h rfl) trim _ after
  | punctuation => exact pruned_of_not_isBlank (not_isBlank_of_isTight h rfl) trim _ after
  | doubleColon => exact pruned_of_not_isBlank (not_isBlank_of_isTight h rfl) trim _ after
  | number => exact pruned_of_not_isBlank (not_isBlank_of_isTight h rfl) trim _ after
  | lineComment => cases hkind
  | blockComment => cases hkind
  | preprocessor => cases hkind

/-! ## Comments -/

/-- Behind its last character it does not matter what follows a text, unless that is a blank or a part
of a line end. -/
theorem pruned_concat (hblank : isBlank c = false) (hfeed : c ≠ '\n') (hreturn : c ≠ '\r')
    (trim quoted : Bool) (after after' text : Text) :
    pruned trim quoted after (text ++ [c]) = pruned trim quoted after' (text ++ [c]) := by
  have hedge : SameEdge ([c] ++ after) ([c] ++ after') := sameEdge_of_ne hblank hfeed hreturn _ _
  rw [pruned_append, pruned_append, pruned, strip_congr hedge, pruned_cons_of_not_isBlank hblank,
    pruned_cons_of_not_isBlank hblank]
  rfl

theorem sight_pruned (trim quoted : Bool) (text : Text) :
    sight (pruned trim quoted [] text) = sight text := by
  have hsight := sight_strip (.inl rfl) trim (tag quoted text)
  rwa [List.append_nil, plain_tag] at hsight

/-- A comment is closed by its last mark after trimming, too. -/
theorem commentLength?_pruned (h : Scan.commentLength? text = some text.length)
    (trim quoted : Bool) :
    Scan.commentLength? (pruned trim quoted [] text) =
      some (pruned trim quoted [] text).length := by
  induction text with
  | nil => cases h
  | cons c text ih =>
      cases hclosed : c == '*' && text.head? == some '/' with
      | true =>
          simp only [Bool.and_eq_true, beq_iff_eq] at hclosed
          obtain ⟨rfl, hslash⟩ := hclosed
          obtain ⟨rest, rfl⟩ := List.head?_eq_some_iff.mp hslash
          obtain rfl : rest = [] := by
            have hlength : 2 = ('*' :: '/' :: rest).length := Option.some.inj h
            exact List.eq_nil_of_length_eq_zero (by simpa using hlength.symm)
          have hmarks : ∀ d ∈ ['*', '/'], isBlank d = false := by simp [isBlank]
          rw [pruned_of_not_isBlank hmarks]
          rfl
      | false =>
          rw [Scan.commentLength?_cons hclosed] at h
          obtain ⟨inner, hinner, hlength⟩ := Option.map_eq_some_iff.mp h
          obtain rfl : inner = text.length := by simpa using hlength
          have hrest := ih hinner
          rw [pruned_cons]
          split
          · exact hrest
          · have hopen : (c == '*' && (pruned trim quoted [] text).head? == some '/') = false := by
              rw [Scan.head?_eq_of_sight '/' (sight_pruned trim quoted text) (by decide) (by decide)]
              exact hclosed
            rw [Scan.commentLength?_cons hopen, hrest]
            rfl

theorem takes_pruned_blockComment (h : Scan.Takes lineStart .blockComment lexeme after)
    (trim quoted : Bool) :
    Scan.Takes lineStart .blockComment (pruned trim quoted after lexeme) after' := by
  obtain ⟨c, tail, rfl, hblank, hhead⟩ := h
  obtain ⟨rfl, hstar, inner, hinner, hlength⟩ := Scan.head_eq_blockComment_iff.mp hhead
  cases tail with
  | nil =>
      rw [List.length_nil] at hlength
      omega
  | cons d tail =>
      obtain rfl : d = '*' := by simpa using hstar
      obtain rfl : inner = tail.length := by
        rw [List.length_cons] at hlength
        omega
      -- where the comment ends does not depend on what follows it
      have hclosed : Scan.commentLength? tail = some tail.length := by
        have happend : Scan.commentLength? (tail ++ []) = some tail.length :=
          Scan.commentLength?_append hinner (Nat.le_refl _)
        rwa [List.append_nil] at happend
      have hlast : tail.getLast? = some '/' := by
        have hlast := Scan.getLast?_commentLength? hclosed
        rwa [List.take_length] at hlast
      obtain ⟨front, rfl⟩ := List.getLast?_eq_some_iff.mp hlast
      rw [pruned_cons_of_not_isBlank rfl, pruned_cons_of_not_isBlank rfl,
        pruned_concat rfl (by decide) (by decide) trim quoted after []]
      have hpruned := commentLength?_pruned hclosed trim quoted
      generalize pruned trim quoted [] (front ++ ['/']) = inner at hpruned ⊢
      have hinner' : Scan.commentLength? (inner ++ []) = some inner.length := by
        rwa [List.append_nil]
      have hclosed' : Scan.commentLength? (inner ++ after') = some inner.length :=
        Scan.commentLength?_append hinner' (Nat.le_refl _)
      refine ⟨'/', '*' :: inner, rfl, rfl, Scan.head_eq_blockComment_iff.mpr
        ⟨rfl, rfl, inner.length, hclosed', ?_⟩⟩
      rw [List.length_cons]
      omega

end Spacing

end CSharpTidy
