import CSharpTidy.Proofs.Loading.Listing

/-!
# Entries of a solution as the matches of a pattern

A pattern says what a line of a solution file that lists a project begins with, and its matches are
looked for from left to right, each behind the one before. A match takes as many characters of a class
as it can, and gives some back where nothing else helps. In this pattern a class is always followed by a
character outside of it, so that giving back never helps, and a reader that goes from line to line finds
just the matches.
-/

namespace CSharpTidy

inductive PatternItem where
  | char (c : Char)
  /-- Any number of characters of a class, which may be kept. -/
  | many (kept : Bool) (test : Char → Bool)

namespace PatternItem

variable {β : Type} {test : Char → Bool} {next : Text → Option β} {items : List PatternItem}
  {text rest : Text} {groups : List Text} {c : Char} {kept : Bool}

/-! ## Matches at the beginning of a text -/

/-- Takes characters of a class, as many as leave a match for what comes next. -/
def takeMany (test : Char → Bool) (next : Text → Option β) : Text → Option (Text × β)
  | [] => (next []).map ([], ·)
  | c :: text =>
      match if test c then takeMany test next text else none with
      | some (taken, found) => some (c :: taken, found)
      | none => (next (c :: text)).map ([], ·)

def keep (kept : Bool) (taken : Text) (groups : List Text) : List Text :=
  if kept then taken :: groups else groups

/-- What is kept of the match at the beginning of a text, and the text behind the match. -/
def matchHead : List PatternItem → Text → Option (List Text × Text)
  | [], text => some ([], text)
  | .char c :: items, text => (text.skip? [c]).bind (matchHead items)
  | .many kept test :: items, text =>
      (takeMany test (matchHead items) text).map fun (taken, groups, rest) =>
        (keep kept taken groups, rest)

theorem exists_of_takeMany {taken : Text} {found : β}
    (h : takeMany test next text = some (taken, found)) :
    ∃ rest, text = taken ++ rest ∧ next rest = some found := by
  have here {text taken : Text} (h : (next text).map (([] : Text), ·) = some (taken, found)) :
      ∃ rest, text = taken ++ rest ∧ next rest = some found := by
    obtain ⟨found', hnext, heq⟩ := Option.map_eq_some_iff.mp h
    obtain ⟨rfl, rfl⟩ := Prod.mk.inj heq
    exact ⟨text, rfl, hnext⟩
  induction text generalizing taken with
  | nil => exact here h
  | cons c text ih =>
      rw [takeMany] at h
      split at h
      · next taken' found' hmore =>
          obtain ⟨rfl, rfl⟩ := Prod.mk.inj (Option.some.inj h)
          obtain ⟨-, hmore⟩ := Option.ite_none_right_eq_some.mp hmore
          obtain ⟨rest, rfl, hnext⟩ := ih hmore
          exact ⟨rest, rfl, hnext⟩
      · exact here h

/-- A match of a pattern that ends in a character ends in it. -/
theorem exists_of_matchHead_concat (h : matchHead (items ++ [.char c]) text = some (groups, rest)) :
    ∃ front, text = front ++ c :: rest := by
  induction items generalizing text groups with
  | nil =>
      obtain ⟨behind, hskip, hmatch⟩ := Option.bind_eq_some_iff.mp h
      obtain ⟨-, rfl⟩ := Prod.mk.inj (Option.some.inj hmatch)
      have htext := Text.eq_append_of_skip? hskip
      exact ⟨[], htext⟩
  | cons item items ih =>
      cases item with
      | char d =>
          obtain ⟨behind, hskip, hmatch⟩ := Option.bind_eq_some_iff.mp h
          obtain ⟨front, rfl⟩ := ih hmatch
          have htext := Text.eq_append_of_skip? hskip
          exact ⟨d :: front, htext⟩
      | many kept test =>
          obtain ⟨⟨taken, groups', rest'⟩, htake, heq⟩ := Option.map_eq_some_iff.mp h
          obtain ⟨-, rfl⟩ := Prod.mk.inj heq
          obtain ⟨behind, rfl, hmatch⟩ := exists_of_takeMany htake
          obtain ⟨front, rfl⟩ := ih hmatch
          exact ⟨taken ++ front, (List.append_assoc ..).symm⟩

/-! ## Patterns that give nothing back -/

/-- Where nothing can go on with a character of the class, all of them are taken. -/
theorem takeMany_eq (hstop : ∀ c text, test c = true → next (c :: text) = none) (text : Text) :
    takeMany test next text = (next (text.dropWhile test)).map (text.takeWhile test, ·) := by
  induction text with
  | nil => rfl
  | cons c text ih =>
      rw [takeMany]
      cases hc : test c with
      | true =>
          rw [List.dropWhile_cons_of_pos hc, List.takeWhile_cons_of_pos hc, hstop c text hc, if_pos rfl,
            ih]
          cases next (text.dropWhile test) <;> rfl
      | false =>
          rw [List.dropWhile_cons_of_neg (by simp [hc]), List.takeWhile_cons_of_neg (by simp [hc])]
          rfl

theorem matchHead_char_cons (c d : Char) (items : List PatternItem) (text : Text) :
    matchHead (.char c :: items) (d :: text) = if d = c then matchHead items text else none := by
  rw [matchHead, Text.skip?]
  split
  · cases text <;> rfl
  · rfl

theorem matchHead_many (hc : test c = false) (text : Text) :
    matchHead (.many kept test :: .char c :: items) text =
      (matchHead (.char c :: items) (text.dropWhile test)).map fun (groups, rest) =>
        (keep kept (text.takeWhile test) groups, rest) := by
  have hstop : ∀ d text, test d = true → matchHead (.char c :: items) (d :: text) = none := by
    intro d text hd
    rw [matchHead_char_cons, if_neg]
    rintro rfl
    exact Bool.false_ne_true (hc.symm.trans hd)
  change (takeMany test (matchHead (.char c :: items)) text).map _ = _
  rw [takeMany_eq hstop, Option.map_map]
  rfl

theorem matchHead_blanks (hc : Text.isBlank c = false) (text : Text) :
    matchHead (.many false Text.isBlank :: .char c :: items) text =
      matchHead (.char c :: items) text.dropBlanks := by
  rw [matchHead_many hc]
  exact Option.map_id'

theorem matchHead_chars (mark : Text) (items : List PatternItem) (text : Text) :
    matchHead (mark.map .char ++ items) text =
      (text.skip? mark).bind fun rest => matchHead items rest := by
  induction mark generalizing text with
  | nil => cases text <;> rfl
  | cons c mark ih =>
      cases text with
      | nil => rfl
      | cons d text =>
          rw [List.map_cons, List.cons_append, matchHead_char_cons, ih]
          simp only [Text.skip?]
          split <;> rfl

theorem matchHead_dropWhile (c : Char) (items : List PatternItem) (text : Text) :
    (matchHead (.char c :: items) (text.dropWhile (· != c))).map (text.takeWhile (· != c), ·) =
      (text.cutAt? c).bind fun parts => (matchHead items parts.2).map (parts.1, ·) := by
  induction text with
  | nil => rfl
  | cons d text ih =>
      rw [Text.cutAt?]
      by_cases hd : d = c
      · rw [if_pos hd, List.dropWhile_cons_of_neg (by simp [hd]),
          List.takeWhile_cons_of_neg (by simp [hd]), matchHead_char_cons, if_pos hd]
        rfl
      · have hadd := congrArg (Option.map (Prod.map (d :: ·) id)) ih
        rw [if_neg hd, List.dropWhile_cons_of_pos (by simp [hd]),
          List.takeWhile_cons_of_pos (by simp [hd]), Option.bind_map]
        rw [Option.map_map, Option.map_bind] at hadd
        refine hadd.trans (congrArg _ (funext fun parts => ?_))
        exact Option.map_map ..

/-- Up to a character a pattern takes what is cut off there. -/
theorem matchHead_until (kept : Bool) (c : Char) (items : List PatternItem) (text : Text) :
    matchHead (.many kept (· != c) :: .char c :: items) text =
      (text.cutAt? c).bind fun (before, after) =>
        (matchHead items after).map fun (groups, rest) => (keep kept before groups, rest) := by
  have hkeep := congrArg (Option.map fun (before, groups, rest) => (keep kept before groups, rest))
    (matchHead_dropWhile c items text)
  rw [Option.map_map, Option.map_bind] at hkeep
  rw [matchHead_many (by simp)]
  refine hkeep.trans (congrArg _ (funext fun parts => ?_))
  exact Option.map_map ..

end PatternItem

/-! ## Matches from left to right -/

/-- A pattern for the beginning of a line, which ends in a character. -/
structure LinePattern where
  items : List PatternItem
  closing : Char

namespace LinePattern

/-- Whether a line begins behind a text. -/
def Opens (before : Text) : Prop := before = [] ∨ before.getLast? = some '\n'

instance (before : Text) : Decidable (Opens before) := inferInstanceAs (Decidable (_ ∨ _))

/-- What is kept of the match at the beginning of a text behind another, and the text behind it. -/
def matchAt (pattern : LinePattern) (before text : Text) : Option (List Text × Text) :=
  if Opens before then PatternItem.matchHead (pattern.items ++ [.char pattern.closing]) text else none

variable {pattern : LinePattern} {before text rest : Text} {groups : List Text}

theorem exists_of_matchAt (h : pattern.matchAt before text = some (groups, rest)) :
    ∃ front, text = front ++ pattern.closing :: rest :=
  PatternItem.exists_of_matchHead_concat (Option.ite_none_right_eq_some.mp h).2

theorem length_lt_of_matchAt (h : pattern.matchAt before text = some (groups, rest)) :
    rest.length < text.length := by
  obtain ⟨front, rfl⟩ := exists_of_matchAt h
  rw [List.length_append, List.length_cons]
  omega

/-- What is kept of each match in a text behind another, from left to right, where each is looked for
behind the one before. -/
def findAll (pattern : LinePattern) (before text : Text) : List (List Text) :=
  match _hmatch : pattern.matchAt before text with
  | some (groups, rest) =>
      groups :: pattern.findAll (before ++ text.take (text.length - rest.length)) rest
  | none =>
      match text with
      | [] => []
      | c :: text => pattern.findAll (before ++ [c]) text
termination_by text.length
decreasing_by
  · exact length_lt_of_matchAt _hmatch
  · exact Nat.lt_succ_self text.length

theorem findAll_of_match (h : pattern.matchAt before text = some (groups, rest)) :
    ∃ front, pattern.findAll before text =
      groups :: pattern.findAll (before ++ (front ++ [pattern.closing])) rest := by
  obtain ⟨front, rfl⟩ := exists_of_matchAt h
  have htake : (front ++ pattern.closing :: rest).take
      ((front ++ pattern.closing :: rest).length - rest.length) = front ++ [pattern.closing] := by
    rw [List.append_cons, List.length_append, Nat.add_sub_cancel, List.take_left]
  refine ⟨front, ?_⟩
  rw [findAll]
  split
  · next groups' rest' hmatch =>
      obtain ⟨rfl, rfl⟩ := Prod.mk.inj (Option.some.inj (hmatch.symm.trans h))
      rw [htake]
  · next hnone => exact absurd (hnone.symm.trans h) nofun

theorem findAll_nil (before : Text) : pattern.findAll before [] = [] := by
  rw [findAll]
  split
  · next groups rest hmatch => exact absurd (length_lt_of_matchAt hmatch) (Nat.not_lt_zero rest.length)
  · rfl

theorem findAll_cons {c : Char} (h : pattern.matchAt before (c :: text) = none) :
    pattern.findAll before (c :: text) = pattern.findAll (before ++ [c]) text := by
  rw [findAll]
  split
  · next hmatch => exact absurd (hmatch.symm.trans h) nofun
  · rfl

theorem not_opens_concat {c : Char} (h : c ≠ '\n') (before : Text) : ¬Opens (before ++ [c]) := by
  rw [Opens, List.getLast?_concat]
  rintro (hnil | hlast)
  · exact List.concat_ne_nil c before hnil
  · exact h (Option.some.inj hlast)

theorem matchAt_of_not_opens (h : ¬Opens before) (text : Text) : pattern.matchAt before text = none :=
  if_neg h

/-- Where no match begins, the next one can only begin with a line. -/
theorem findAll_of_none (h : pattern.matchAt before text = none) : pattern.findAll before text =
    match text.cutAt? '\n' with
    | some (line, next) => pattern.findAll (before ++ (line ++ ['\n'])) next
    | none => [] := by
  induction text generalizing before with
  | nil => exact findAll_nil before
  | cons c text ih =>
      rw [findAll_cons h, Text.cutAt?]
      by_cases hc : c = '\n'
      · rw [if_pos hc, hc]
        rfl
      · rw [if_neg hc, ih (matchAt_of_not_opens (not_opens_concat hc before) text)]
        cases Text.cutAt? '\n' text with
        | none => rfl
        | some parts => exact congrArg (pattern.findAll · parts.2) (List.append_assoc ..)

end LinePattern

namespace SolutionEntry

/-- The pattern `^\s*Project\("\{[^}]*\}"\)\s*=\s*"([^"]*)"\s*,\s*"([^"]*)"`. -/
def projectLine : LinePattern where
  items :=
    .many false Text.isBlank :: (Listed.opening.map .char ++
      .many false (· != '\x7d') :: .char '\x7d' :: ("\")".toList.map .char ++
        .many false Text.isBlank :: .char '=' :: .many false Text.isBlank :: .char '"' ::
          .many true (· != '"') :: .char '"' :: .many false Text.isBlank :: .char ',' ::
            .many false Text.isBlank :: .char '"' :: [.many true (· != '"')]))
  closing := '"'

/-- The entry for what is kept of a match. -/
def entryOf (groups : List Text) : SolutionEntry where
  name := String.ofList (groups.getD 0 [])
  path := pathOf (groups.getD 1 [])

open PatternItem

theorem matchHead_mark {c d : Char} (hc : Text.isBlank c = false) (hd : Text.isBlank d = false)
    (items : List PatternItem) (text : Text) :
    matchHead
        (.many false Text.isBlank :: .char c :: .many false Text.isBlank :: .char d :: items) text =
      (mark? c text).bind fun rest => matchHead (.char d :: items) rest := by
  rw [matchHead_blanks hc, matchHead, mark?, Option.bind_map]
  exact congrArg _ (funext fun rest => matchHead_blanks hd rest)

theorem matchHead_quoted (items : List PatternItem) (text : Text) :
    matchHead (.char '"' :: .many true (· != '"') :: .char '"' :: items) text =
      (quoted? text).bind fun (value, rest) =>
        (matchHead items rest).map fun (groups, rest) => (value :: groups, rest) := by
  rw [matchHead, quoted?, Option.bind_assoc]
  exact congrArg _ (funext fun rest => matchHead_until true '"' items rest)

theorem read?_eq_matchHead (text : Text) : read? text =
    (matchHead (projectLine.items ++ [.char projectLine.closing]) text).map fun (groups, rest) =>
      (entryOf groups, rest) := by
  have hequals : Text.isBlank '=' = false := by decide
  have hcomma : Text.isBlank ',' = false := by decide
  have hquote : Text.isBlank '"' = false := by decide
  have hopening : Listed.opening = 'P' :: "roject(\"\x7b".toList := by decide
  rw [projectLine, List.cons_append, hopening, List.map_cons]
  simp only [List.append_assoc, List.cons_append, List.nil_append]
  rw [matchHead_blanks (by decide), ← List.cons_append, ← List.map_cons, ← hopening,
    matchHead_chars]
  simp only [matchHead_until, matchHead_chars, matchHead_mark hequals hquote,
    matchHead_mark hcomma hquote, matchHead_quoted, Option.map_bind, Function.comp_def, Option.map_map]
  rfl

theorem opens_line (before line : Text) : LinePattern.Opens (before ++ (line ++ ['\n'])) := by
  rw [← List.append_assoc]
  exact .inr List.getLast?_concat

theorem readAll_eq_findAll_of_opens {before : Text} (h : LinePattern.Opens before) (text : Text) :
    readAll text = (projectLine.findAll before text).map entryOf := by
  have hread : read? text = (projectLine.matchAt before text).map fun (groups, rest) =>
      (entryOf groups, rest) := by
    rw [read?_eq_matchHead, LinePattern.matchAt, if_pos h]
  rw [readAll_eq, hread]
  cases hmatch : projectLine.matchAt before text with
  | none =>
      rw [LinePattern.findAll_of_none hmatch]
      cases hcut : text.cutAt? '\n' with
      | none => rfl
      | some parts =>
          have := Text.length_lt_of_cutAt? hcut
          exact readAll_eq_findAll_of_opens (opens_line before parts.1) parts.2
  | some found =>
      obtain ⟨groups, rest⟩ := found
      obtain ⟨front, hfind⟩ := LinePattern.findAll_of_match hmatch
      -- a match ends in a quote, so that none can begin right behind it
      have hinside :=
        LinePattern.not_opens_concat (c := projectLine.closing) (by decide) (before ++ front)
      rw [List.append_assoc] at hinside
      have hlt := LinePattern.length_lt_of_matchAt hmatch
      rw [hfind, LinePattern.findAll_of_none (LinePattern.matchAt_of_not_opens hinside rest)]
      dsimp only [Option.map_some]
      cases hcut : rest.cutAt? '\n' with
      | none => rfl
      | some parts =>
          have := Text.length_lt_of_cutAt? hcut
          exact congrArg _ (readAll_eq_findAll_of_opens (opens_line _ parts.1) parts.2)
termination_by text.length

/-- **The entries are the matches of the pattern, from left to right.** -/
theorem readAll_eq_findAll (text : Text) : readAll text = (projectLine.findAll [] text).map entryOf :=
  readAll_eq_findAll_of_opens (.inl rfl) text

end SolutionEntry

end CSharpTidy
