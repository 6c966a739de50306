import CSharpTidy.Format.Spacing
import CSharpTidy.Proofs.Token.Lookahead

/-!
# Removing the blanks at the ends of lines

Trimming works on characters that are marked by whether they belong to a string: a blank that is not
quoted goes where nothing but blanks stands between it and the end of its line, a carriage return not
counted. One removal can bring a carriage return to the end of a line, and with it blanks that stood in
the middle. `relapses` tells where this happens, and what is left then has no such place.
-/

namespace CSharpTidy

namespace Spacing

open Scan (breaks carriage sight)

variable {c : Char} {quoted trim : Bool} {text rest rest' after after' final : Text}
  {marked first second : List (Char × Bool)}

def ends (text : Text) : Bool := breaks text || carriage text

/-- Whether nothing but blanks is left of a line. -/
def trims (text : Text) : Bool := ends (text.dropWhile isBlank)

theorem trims_cons (c : Char) (text : Text) :
    trims (c :: text) = if isBlank c then trims text else ends (c :: text) := by
  rw [trims, List.dropWhile_cons]
  split <;> rfl

theorem trims_of_ends (h : ends text = true) : trims text = true := by
  cases text with
  | nil => rfl
  | cons c text =>
      have hblank : isBlank c = false := by
        simp only [ends, breaks, carriage, Bool.or_eq_true, Bool.and_eq_true, beq_iff_eq] at h
        rcases h with rfl | ⟨rfl, -⟩ <;> rfl
      rw [trims_cons, if_neg (by simp [hblank]), h]

/-- Texts of which lines end in the same way. -/
structure SameEdge (rest rest' : Text) : Prop where
  breaks : breaks rest = breaks rest'
  carriage : carriage rest = carriage rest'
  trims : trims rest = trims rest'

theorem SameEdge.refl (rest : Text) : SameEdge rest rest := ⟨rfl, rfl, rfl⟩

theorem SameEdge.cons (h : SameEdge rest rest') (c : Char) : SameEdge (c :: rest) (c :: rest') where
  breaks := rfl
  carriage := by rw [Scan.carriage, Scan.carriage, h.breaks]
  trims := by
    have hends : ends (c :: rest) = ends (c :: rest') := by
      rw [ends, ends, Scan.carriage, Scan.carriage, h.breaks]
      rfl
    rw [trims_cons, trims_cons, h.trims, hends]

theorem SameEdge.append (h : SameEdge rest rest') (front : Text) :
    SameEdge (front ++ rest) (front ++ rest') := by
  induction front with
  | nil => exact h
  | cons c front ih => exact ih.cons c

theorem ends_of_ne (hfeed : c ≠ '\n') (hreturn : c ≠ '\r') (text : Text) :
    ends (c :: text) = false := by
  simp [ends, breaks, carriage, hfeed, hreturn]

/-- Behind a character inside a line it does not matter where the line goes on. -/
theorem sameEdge_of_ne (hblank : isBlank c = false) (hfeed : c ≠ '\n') (hreturn : c ≠ '\r')
    (rest rest' : Text) : SameEdge (c :: rest) (c :: rest') where
  breaks := rfl
  carriage := by rw [Scan.carriage, Scan.carriage, beq_eq_false_iff_ne.mpr hreturn]; rfl
  trims := by
    rw [trims_cons, trims_cons, if_neg (by simp [hblank]), if_neg (by simp [hblank]),
      ends_of_ne hfeed hreturn, ends_of_ne hfeed hreturn]

def plain (marked : List (Char × Bool)) : Text := marked.map Prod.fst

@[simp] theorem plain_append (first second : List (Char × Bool)) :
    plain (first ++ second) = plain first ++ plain second := List.map_append

theorem exists_marked_append {before : Text} (h : plain marked = before ++ text) :
    ∃ first second, marked = first ++ second ∧ plain first = before ∧ plain second = text :=
  List.map_eq_append_iff.mp h

theorem exists_marked_cons (h : plain marked = c :: text) :
    ∃ quoted rest, marked = (c, quoted) :: rest ∧ plain rest = text := by
  obtain ⟨⟨d, quoted⟩, rest, rfl, rfl, hrest⟩ := List.map_eq_cons_iff.mp h
  exact ⟨quoted, rest, rfl, hrest⟩

def tag (quoted : Bool) (text : Text) : List (Char × Bool) := text.map fun c => (c, quoted)

@[simp] theorem plain_tag (quoted : Bool) (text : Text) : plain (tag quoted text) = text := by
  rw [plain, tag, List.map_map]
  exact List.map_id text

theorem tag_append (quoted : Bool) (first second : Text) :
    tag quoted (first ++ second) = tag quoted first ++ tag quoted second := List.map_append

/-- Removes blanks that are not quoted at the ends of lines, if that is asked for. -/
def strip (trim : Bool) (after : Text) : List (Char × Bool) → List (Char × Bool)
  | [] => []
  | (c, quoted) :: rest =>
      if trim && isBlank c && !quoted && trims (plain rest ++ after) then strip trim after rest
      else (c, quoted) :: strip trim after rest

theorem strip_append (trim : Bool) (after : Text) (first second : List (Char × Bool)) :
    strip trim after (first ++ second) =
      strip trim (plain second ++ after) first ++ strip trim after second := by
  induction first with
  | nil => rfl
  | cons item first ih =>
      rw [List.cons_append, strip, strip, plain_append, List.append_assoc, ih]
      split <;> rfl

theorem strip_congr (h : SameEdge after after') (marked : List (Char × Bool)) :
    strip trim after marked = strip trim after' marked := by
  induction marked with
  | nil => rfl
  | cons item marked ih => rw [strip, strip, ih, (h.append (plain marked)).trims]

theorem strip_false (after : Text) (marked : List (Char × Bool)) :
    strip false after marked = marked := by
  induction marked with
  | nil => rfl
  | cons item marked ih => rw [strip, ih]; rfl

theorem strip_quoted (trim : Bool) (after text : Text) :
    strip trim after (tag true text) = tag true text := by
  induction text with
  | nil => rfl
  | cons c text ih =>
      change strip trim after ((c, true) :: tag true text) = (c, true) :: tag true text
      rw [strip, ih]
      simp

theorem strip_cons_of_not_isBlank (hblank : isBlank c = false) (trim quoted : Bool) (after : Text)
    (marked : List (Char × Bool)) :
    strip trim after ((c, quoted) :: marked) = (c, quoted) :: strip trim after marked := by
  rw [strip]
  simp [hblank]

theorem strip_length_le (trim : Bool) (after : Text) (marked : List (Char × Bool)) :
    (strip trim after marked).length ≤ marked.length := by
  induction marked with
  | nil => exact Nat.le_refl 0
  | cons item marked ih =>
      rw [strip]
      split
      · exact Nat.le_succ_of_le ih
      · exact Nat.succ_le_succ ih

theorem strip_cons_eq_self_iff :
    strip trim after ((c, quoted) :: marked) = (c, quoted) :: marked ↔
      (trim && isBlank c && !quoted && trims (plain marked ++ after)) = false ∧
        strip trim after marked = marked := by
  rw [strip]
  split
  · next hremoved =>
      rw [hremoved]
      have hle := strip_length_le trim after marked
      constructor
      · intro h
        rw [h, List.length_cons] at hle
        omega
      · rintro ⟨h, -⟩
        cases h
  · next hkept => simp [Bool.eq_false_iff.mpr hkept]

theorem isBlank_of_spacing (h : isBlank c = true) : Scan.isBlank c = true := by
  simp only [isBlank, Bool.or_eq_true, beq_iff_eq] at h
  rcases h with rfl | rfl <;> rfl

/-- The line ends that the formatter adds to the end of a file, or none. -/
def IsFinal (final : Text) : Prop := final = [] ∨ final = ['\n'] ∨ final = ['\r', '\n']

theorem sight_of_isFinal (h : IsFinal final) : sight final = [] := by
  rcases h with rfl | rfl | rfl <;> rfl

theorem sight_of_trims (h : trims text = true) : sight text = [] := by
  induction text with
  | nil => rfl
  | cons c text ih =>
      by_cases hblank : isBlank c = true
      · exact Scan.sight_of_isBlank (isBlank_of_spacing hblank) text
      · rw [trims_cons, if_neg hblank, ends, Bool.or_eq_true, breaks, carriage, Bool.and_eq_true,
          beq_iff_eq, beq_iff_eq] at h
        rcases h with rfl | ⟨rfl, -⟩ <;> exact Scan.sight_of_isBlank rfl text

theorem sight_strip (hfinal : IsFinal final) (trim : Bool) (marked : List (Char × Bool)) :
    sight (plain (strip trim [] marked) ++ final) = sight (plain marked) := by
  induction marked with
  | nil => exact sight_of_isFinal hfinal
  | cons item marked ih =>
      obtain ⟨c, quoted⟩ := item
      rw [strip, List.append_nil]
      split
      · next hremoved =>
          simp only [Bool.and_eq_true] at hremoved
          rw [ih, sight_of_trims hremoved.2]
          exact (Scan.sight_of_isBlank (isBlank_of_spacing hremoved.1.1.2) _).symm
      · exact Scan.sight_append ih [c]

/-! ## What is left to remove afterwards -/

/-- Whether nothing but blanks to be removed is left of a line, up to its line feed or to the end of
the file and the line feed added there. -/
def vanishes (final : Text) : List (Char × Bool) → Bool
  | [] => breaks final
  | (c, quoted) :: rest => c == '\n' || isBlank c && !quoted && vanishes final rest

/-- Whether blanks end at a carriage return that comes to stand at the end of its line. -/
def stalls (final : Text) : List (Char × Bool) → Bool
  | [] => false
  | (c, _) :: rest =>
      if isBlank c then stalls final rest
      else c == '\r' && !breaks (plain rest) && vanishes final rest

/-- Whether some blank comes to stand at the end of its line. -/
def relapses (final : Text) : List (Char × Bool) → Bool
  | [] => false
  | (c, quoted) :: rest => isBlank c && !quoted && stalls final rest || relapses final rest

theorem trims_of_vanishes (h : vanishes final marked = true) : trims (plain marked) = true := by
  induction marked with
  | nil => rfl
  | cons item marked ih =>
      obtain ⟨c, quoted⟩ := item
      rw [vanishes, Bool.or_eq_true, beq_iff_eq] at h
      change trims (c :: plain marked) = true
      rw [trims_cons]
      rcases h with rfl | h
      · rfl
      · simp only [Bool.and_eq_true] at h
        rw [if_pos h.1.1, ih h.2]

theorem breaks_strip (final : Text) (marked : List (Char × Bool)) :
    breaks (plain (strip true [] marked) ++ final) = vanishes final marked := by
  induction marked with
  | nil => rfl
  | cons item marked ih =>
      obtain ⟨c, quoted⟩ := item
      rw [strip, List.append_nil, vanishes]
      by_cases hblank : isBlank c = true
      · have hfeed : (c == '\n') = false := by
          simp only [isBlank, Bool.or_eq_true, beq_iff_eq] at hblank
          rcases hblank with rfl | rfl <;> rfl
        have hbreaks : breaks (plain ((c, quoted) :: strip true [] marked) ++ final) = false := hfeed
        rw [hblank, hfeed, Bool.true_and, Bool.true_and, Bool.false_or]
        cases quoted with
        | true => exact hbreaks
        | false =>
            rw [Bool.not_false, Bool.true_and, Bool.true_and]
            split
            · exact ih
            · next hkept =>
                rw [hbreaks]
                cases hvanishes : vanishes final marked with
                | false => rfl
                | true => exact absurd (trims_of_vanishes hvanishes) hkept
      · rw [if_neg (by simp [hblank]), Bool.eq_false_iff.mpr hblank, Bool.false_and, Bool.false_and,
          Bool.or_false]
        rfl

/-- Blanks that stay come to the end of their line only where they stall. -/
theorem trims_strip (htrims : trims (plain marked) = false) :
    trims (plain (strip true [] marked) ++ final) = stalls final marked := by
  induction marked with
  | nil => cases htrims
  | cons item marked ih =>
      obtain ⟨c, quoted⟩ := item
      change trims (c :: plain marked) = false at htrims
      rw [trims_cons] at htrims
      by_cases hblank : isBlank c = true
      · rw [if_pos hblank] at htrims
        have hkept : strip true [] ((c, quoted) :: marked) =
            (c, quoted) :: strip true [] marked := by
          rw [strip, List.append_nil, htrims, Bool.and_false]
          rfl
        rw [hkept, stalls, if_pos hblank, ← ih htrims]
        change trims (c :: (plain (strip true [] marked) ++ final)) = _
        rw [trims_cons, if_pos hblank]
      · rw [if_neg hblank, ends, Bool.or_eq_false_iff, breaks, carriage] at htrims
        rw [strip_cons_of_not_isBlank (Bool.eq_false_iff.mpr hblank), stalls, if_neg hblank]
        change trims (c :: (plain (strip true [] marked) ++ final)) = _
        rw [trims_cons, if_neg hblank, ends, breaks, carriage, htrims.1, breaks_strip, Bool.false_or]
        cases hreturn : c == '\r' with
        | false => rfl
        | true =>
            rw [hreturn, Bool.true_and] at htrims
            rw [htrims.2]
            rfl

theorem stalls_of_trims (h : trims (plain marked) = true) : stalls final marked = false := by
  induction marked with
  | nil => rfl
  | cons item marked ih =>
      obtain ⟨c, quoted⟩ := item
      change trims (c :: plain marked) = true at h
      rw [trims_cons] at h
      rw [stalls]
      split at h
      · next hblank => rw [if_pos hblank, ih h]
      · next hblank =>
          rw [if_neg hblank]
          rw [ends, Bool.or_eq_true, breaks, carriage, Bool.and_eq_true, beq_iff_eq] at h
          rcases h with rfl | ⟨-, hbreaks⟩
          · rfl
          · rw [hbreaks, Bool.not_true, Bool.and_false, Bool.false_and]

/-- A text that has been trimmed is clean unless it relapses. -/
theorem strip_strip_eq_self_iff (hfinal : IsFinal final) :
    strip true [] (strip true [] marked ++ tag false final) =
        strip true [] marked ++ tag false final ↔ relapses final marked = false := by
  induction marked with
  | nil => rcases hfinal with rfl | rfl | rfl <;> decide
  | cons item marked ih =>
      obtain ⟨c, quoted⟩ := item
      rw [relapses, Bool.or_eq_false_iff, ← ih, strip, List.append_nil]
      split
      · next hremoved =>
          simp only [Bool.and_eq_true, Bool.true_and] at hremoved
          simp [stalls_of_trims hremoved.2]
      · next hkept =>
          rw [List.cons_append, strip_cons_eq_self_iff, List.append_nil, plain_append, plain_tag,
            Bool.true_and]
          cases hopen : isBlank c && !quoted with
          | false => simp
          | true =>
              rw [Bool.true_and, hopen, Bool.true_and, Bool.not_eq_true] at hkept
              rw [trims_strip hkept]

/-- Behind what is left no blanks end at a line feed. -/
theorem vanishes_strip (hfinal : IsFinal final)
    (hbreaks : breaks (plain (strip true [] marked) ++ final) = false) :
    vanishes [] (strip true [] marked ++ tag false final) = false := by
  induction marked with
  | nil => rcases hfinal with rfl | rfl | rfl <;> first | rfl | cases hbreaks
  | cons item marked ih =>
      obtain ⟨c, quoted⟩ := item
      rw [strip, List.append_nil] at hbreaks ⊢
      split
      · next hremoved =>
          rw [if_pos hremoved] at hbreaks
          exact ih hbreaks
      · next hkept =>
          rw [if_neg hkept] at hbreaks
          have hfeed : (c == '\n') = false := hbreaks
          rw [List.cons_append, vanishes, hfeed, Bool.false_or]
          cases hopen : isBlank c && !quoted with
          | false => rfl
          | true =>
              rw [Bool.true_and, hopen, Bool.true_and, Bool.not_eq_true] at hkept
              rw [Bool.true_and]
              refine ih ?_
              rw [breaks_strip]
              cases hvanishes : vanishes final marked with
              | false => rfl
              | true =>
                  rw [trims_of_vanishes hvanishes] at hkept
                  cases hkept

theorem stalls_strip (hfinal : IsFinal final) (marked : List (Char × Bool)) :
    stalls [] (strip true [] marked ++ tag false final) = false := by
  induction marked with
  | nil => rcases hfinal with rfl | rfl | rfl <;> rfl
  | cons item marked ih =>
      obtain ⟨c, quoted⟩ := item
      rw [strip, List.append_nil]
      split
      · exact ih
      · rw [List.cons_append, stalls]
        split
        · exact ih
        · rw [plain_append, plain_tag]
          cases hbreaks : breaks (plain (strip true [] marked) ++ final) with
          | true => simp
          | false => rw [vanishes_strip hfinal hbreaks, Bool.and_false]

theorem relapses_strip (hfinal : IsFinal final) (marked : List (Char × Bool)) :
    relapses [] (strip true [] marked ++ tag false final) = false := by
  induction marked with
  | nil => rcases hfinal with rfl | rfl | rfl <;> rfl
  | cons item marked ih =>
      obtain ⟨c, quoted⟩ := item
      rw [strip, List.append_nil]
      split
      · exact ih
      · rw [List.cons_append, relapses, ih, Bool.or_false, stalls_strip hfinal, Bool.and_false]

end Spacing

end CSharpTidy
