import CSharpTidy.Proofs.Format.Trailing
import CSharpTidy.Proofs.Token.Closing

/-!
# Which characters belong to strings

The formatter asks for the blanks at the end of a line whether they begin in a string, by offsets.
Strings begin and end with something other than a blank, so this is the same question for every blank
of a row, and the marks on the pieces of a text answer it.
-/

namespace CSharpTidy

/-- The characters of pieces, marked by whether they belong to a string. -/
def Piece.tagged : List Piece → List (Char × Bool)
  | [] => []
  | blank c :: pieces => (c, false) :: tagged pieces
  | token kind lexeme :: pieces => Spacing.tag (kind == .string) lexeme ++ tagged pieces

namespace Piece

open Spacing (plain tag)

@[simp] theorem plain_tagged (pieces : List Piece) : plain (tagged pieces) = spell pieces := by
  induction pieces with
  | nil => rfl
  | cons piece pieces ih =>
      cases piece with
      | blank c =>
          rw [tagged, spell_cons, ← ih]
          rfl
      | token kind lexeme =>
          rw [tagged, Spacing.plain_append, Spacing.plain_tag, ih, spell_cons]
          rfl

theorem tagged_append (first second : List Piece) :
    tagged (first ++ second) = tagged first ++ tagged second := by
  induction first with
  | nil => rfl
  | cons piece first ih =>
      cases piece with
      | blank c => rw [List.cons_append, tagged, tagged, ih, List.cons_append]
      | token kind lexeme => rw [List.cons_append, tagged, tagged, ih, List.append_assoc]

end Piece

namespace Spacing

open Piece (spell tagged locate Scanned)

variable {text before after first second run : Text} {span : Span} {pieces : List Piece}
  {offset : Nat} {c : Char} {quoted lineStart : Bool} {head tail : List (Char × Bool)}

/-- The places of the strings among tokens. -/
def strings (tokens : List Token) : List Span :=
  (tokens.filter fun token => token.kind == .string).map Token.span

theorem strings_cons (token : Token) (tokens : List Token) :
    strings (token :: tokens) =
      if token.kind == .string then token.span :: strings tokens else strings tokens := by
  rw [strings, List.filter_cons]
  split <;> rfl

/-- A span that begins and ends with something other than a blank. -/
def Solid (text : Text) (span : Span) : Prop :=
  ∃ before part after first last, text = before ++ (part ++ after) ∧
    span = ⟨before.size, before.size + part.size⟩ ∧
      part.head? = some first ∧ Scan.isBlank first = false ∧
        part.getLast? = some last ∧ Scan.isBlank last = false

theorem mem_of_begins_in {row front behind : Text} {d : Char}
    (htext : before ++ (row ++ after) = front ++ d :: behind) (hlow : before.size ≤ front.size)
    (hhigh : front.size < (before ++ row).size) : d ∈ row := by
  obtain ⟨between, rfl, hbetween⟩ := Text.exists_between_of_size_le htext hlow
  rw [Text.size_append, Text.size_append, Nat.add_lt_add_iff_left] at hhigh
  obtain ⟨between', rfl, hrest⟩ :=
    Text.exists_between_of_size_le hbetween.symm (Nat.le_of_lt hhigh)
  cases between' with
  | nil => simp at hhigh
  | cons e between' =>
      obtain ⟨rfl, -⟩ := List.cons.inj hrest
      simp

theorem mem_of_ends_in {row front behind : Text} {d : Char}
    (htext : before ++ (row ++ after) = front ++ behind) (hlast : front.getLast? = some d)
    (hlow : before.size < front.size) (hhigh : front.size ≤ (before ++ row).size) : d ∈ row := by
  obtain ⟨between, rfl, hbetween⟩ := Text.exists_between_of_size_le htext (Nat.le_of_lt hlow)
  rw [Text.size_append, Text.size_append, Nat.add_le_add_iff_left] at hhigh
  obtain ⟨between', rfl, -⟩ := Text.exists_between_of_size_le hbetween.symm hhigh
  have hne : between ≠ [] := by
    rintro rfl
    simp at hlow
  rw [List.getLast?_append, List.getLast?_eq_some_getLast hne, Option.some_or] at hlast
  obtain rfl := Option.some.inj hlast
  exact List.mem_append_left _ (List.getLast_mem hne)

/-- A solid span holds a row of blanks or leaves it out. -/
theorem Solid.contains_eq (h : Solid (before ++ (first ++ c :: after)) span)
    (hfirst : first.all Scan.isBlank = true) (hc : Scan.isBlank c = true) :
    span.contains before.size = span.contains (before ++ first).size := by
  obtain ⟨front, part, behind, opening, closing, htext, rfl, hopening, hopens, hclosing, hcloses⟩ := h
  have hrow : ∀ d ∈ first ++ [c], Scan.isBlank d = true := by
    intro d hmem
    rcases List.mem_append.mp hmem with hmem | hmem
    · exact List.all_eq_true.mp hfirst d hmem
    · rwa [List.mem_singleton.mp hmem]
  have htext' : before ++ ((first ++ [c]) ++ after) = front ++ (part ++ behind) := by
    rw [← htext]
    simp
  have hsize : (before ++ first).size < (before ++ (first ++ [c])).size := by
    have hpos := c.utf8Size_pos
    rw [← List.append_assoc, Text.size_append _ [c]]
    exact Nat.lt_add_of_pos_right (Nat.lt_of_lt_of_le hpos (Nat.le_add_right _ _))
  -- no end of the span lies inside the row
  have hstart : ¬(before.size < front.size ∧ front.size ≤ (before ++ first).size) := by
    rintro ⟨hlow, hhigh⟩
    obtain ⟨tail, rfl⟩ := List.head?_eq_some_iff.mp hopening
    have hmem := mem_of_begins_in htext' (Nat.le_of_lt hlow) (Nat.lt_of_le_of_lt hhigh hsize)
    rw [hrow opening hmem] at hopens
    cases hopens
  have hstop : ¬(before.size < front.size + part.size ∧
      front.size + part.size ≤ (before ++ first).size) := by
    rintro ⟨hlow, hhigh⟩
    rw [← Text.size_append] at hlow hhigh
    rw [← List.append_assoc front] at htext'
    have hmem := mem_of_ends_in htext' (Scan.getLast?_append_of_eq hclosing front) hlow
      (Nat.le_of_lt (Nat.lt_of_le_of_lt hhigh hsize))
    rw [hrow closing hmem] at hcloses
    cases hcloses
  rw [Span.contains, Span.contains, Bool.eq_iff_iff]
  simp only [Bool.and_eq_true, decide_eq_true_eq]
  have hle : before.size ≤ (before ++ first).size := by
    rw [Text.size_append]
    omega
  omega

theorem solid_of_mem_strings (h : Scanned [] lineStart pieces) (before : Text) :
    ∀ span ∈ strings (locate before.size pieces), Solid (before ++ spell pieces) span := by
  induction pieces generalizing before lineStart with
  | nil => exact fun _ hmem => by cases hmem
  | cons piece pieces ih =>
      intro span hmem
      cases piece with
      | blank c =>
          have hnext := ih h.2 (before ++ [c]) span
          rw [Text.size_append, List.append_assoc] at hnext
          exact hnext hmem
      | token kind lexeme =>
          have hnext := ih h.2 (before ++ lexeme) span
          rw [Text.size_append, List.append_assoc] at hnext
          rw [Piece.locate, strings_cons] at hmem
          split at hmem
          · next hkind =>
              rcases List.mem_cons.mp hmem with rfl | hmem
              · rw [beq_iff_eq] at hkind
                subst hkind
                obtain ⟨htakes, -⟩ := h
                have hlast := htakes.getLast?_of_string
                obtain ⟨c, tail, rfl, hblank, -⟩ := htakes
                exact ⟨before, c :: tail, spell pieces, c, '"', rfl, rfl, rfl, hblank, hlast, rfl⟩
              · exact hnext hmem
          · exact hnext hmem

theorem le_start_of_mem_strings :
    ∀ span ∈ strings (locate offset pieces), offset ≤ span.start := by
  induction pieces generalizing offset with
  | nil => exact fun _ hmem => by cases hmem
  | cons piece pieces ih =>
      intro span hmem
      cases piece with
      | blank c =>
          have := ih span hmem
          omega
      | token kind lexeme =>
          rw [Piece.locate, strings_cons] at hmem
          split at hmem
          · rcases List.mem_cons.mp hmem with rfl | hmem
            · exact Nat.le_refl _
            · have := ih span hmem
              omega
          · have := ih span hmem
            omega

/-- No string reaches back in front of the place it is looked for from. -/
theorem any_contains_of_lt {position : Nat} (h : position < offset) :
    (strings (locate offset pieces)).any (·.contains position) = false := by
  rw [List.any_eq_false]
  intro span hmem
  have hstart := le_start_of_mem_strings span hmem
  simp only [Span.contains, Bool.and_eq_true, decide_eq_true_eq]
  omega

theorem any_contains_token (kind : TokenKind) (lexeme : Text) (pieces : List Piece)
    (offset position : Nat) :
    (strings (locate offset (.token kind lexeme :: pieces))).any (·.contains position) =
      ((kind == .string && Span.contains ⟨offset, offset + lexeme.size⟩ position) ||
        (strings (locate (offset + lexeme.size) pieces)).any (·.contains position)) := by
  rw [Piece.locate, strings_cons]
  cases kind == .string with
  | false => rfl
  | true => rfl

theorem any_contains_strings (h : tagged pieces = head ++ (c, quoted) :: tail) (offset : Nat) :
    (strings (locate offset pieces)).any (·.contains (offset + Text.size (plain head))) = quoted := by
  induction pieces generalizing offset head with
  | nil => simp [tagged] at h
  | cons piece pieces ih =>
      cases piece with
      | blank d =>
          cases head with
          | nil =>
              obtain ⟨hitem, -⟩ := List.cons.inj h
              obtain ⟨rfl, rfl⟩ := Prod.mk.inj hitem
              have hpos := d.utf8Size_pos
              have hlt : offset + Text.size (plain []) < offset + d.utf8Size := by
                change offset + 0 < _
                omega
              exact (any_contains_of_lt hlt : (strings (locate (offset + d.utf8Size) pieces)).any _ = false)
          | cons item head =>
              obtain ⟨rfl, hrest⟩ := List.cons.inj h
              have hnext := ih hrest (offset + d.utf8Size)
              rw [Nat.add_assoc] at hnext
              exact hnext
      | token kind lexeme =>
          rw [tagged] at h
          rw [any_contains_token]
          have hbehind : ∀ between, head = tag (kind == .string) lexeme ++ between →
              tagged pieces = between ++ (c, quoted) :: tail →
                ((kind == .string && Span.contains ⟨offset, offset + lexeme.size⟩
                    (offset + Text.size (plain head))) ||
                  (strings (locate (offset + lexeme.size) pieces)).any
                    (·.contains (offset + Text.size (plain head)))) = quoted := by
            intro between hhead hrest
            have hsize : offset + Text.size (plain head) =
                offset + lexeme.size + Text.size (plain between) := by
              rw [hhead, plain_append, plain_tag, Text.size_append, Nat.add_assoc]
            have hnot : Span.contains ⟨offset, offset + lexeme.size⟩
                (offset + lexeme.size + Text.size (plain between)) = false := by
              simp [Span.contains]
            rw [hsize, hnot, Bool.and_false, Bool.false_or, ih hrest]
          rcases List.append_eq_append_iff.mp h with ⟨between, hhead, hrest⟩ | ⟨between, hlexeme, hrest⟩
          · exact hbehind between hhead hrest
          · cases between with
            | nil => exact hbehind [] (by simpa using hlexeme.symm) (by simpa using hrest.symm)
            | cons item between =>
                -- the character is one of the lexeme
                obtain ⟨rfl, -⟩ := List.cons.inj hrest
                have hpos := c.utf8Size_pos
                have hsize : lexeme.size =
                    Text.size (plain head) + (c.utf8Size + Text.size (plain between)) := by
                  have hplain := congrArg plain hlexeme
                  rw [plain_tag, plain_append] at hplain
                  rw [hplain, Text.size_append]
                  rfl
                have hquoted : quoted = (kind == .string) := by
                  have hmem : (c, quoted) ∈ tag (kind == .string) lexeme := by
                    rw [hlexeme]
                    simp
                  obtain ⟨d, -, hd⟩ := List.mem_map.mp hmem
                  exact (Prod.mk.inj hd).2.symm
                have hinside : Span.contains ⟨offset, offset + lexeme.size⟩
                    (offset + Text.size (plain head)) = true := by
                  rw [Span.contains, Bool.and_eq_true, decide_eq_true_eq, decide_eq_true_eq]
                  simp only
                  omega
                rw [hinside, Bool.and_true, any_contains_of_lt (by omega), Bool.or_false, hquoted]

theorem any_contains_row {mark row : Text} (hscanned : Scanned [] lineStart pieces)
    (htext : mark ++ spell pieces = before ++ (row ++ c :: after))
    (hrow : row.all Scan.isBlank = true) (hblank : Scan.isBlank c = true) :
    (strings (locate mark.size pieces)).any (·.contains before.size) =
      (strings (locate mark.size pieces)).any (·.contains (before ++ row).size) := by
  have hsolid := solid_of_mem_strings hscanned mark
  rw [htext] at hsolid
  rw [Bool.eq_iff_iff, List.any_eq_true, List.any_eq_true]
  refine exists_congr fun span => and_congr_right fun hmem => ?_
  rw [(hsolid span hmem).contains_eq hrow hblank]

theorem any_contains_trimmed {mark : Text} (hscanned : Scanned [] lineStart pieces)
    (h : tagged pieces = head ++ (c, quoted) :: tail) (hblank : isBlank c = true) :
    (strings (locate mark.size pieces)).any
      (·.contains (trimmed (mark ++ plain head)).size) = quoted := by
  have hplain := congrArg plain h
  rw [Piece.plain_tagged, plain_append] at hplain
  have hself := any_contains_strings h mark.size
  rw [← Text.size_append] at hself
  obtain ⟨blanks, hcut, hblanks⟩ := exists_blanks (mark ++ plain head)
  have hrow : blanks.all Scan.isBlank = true :=
    List.all_eq_true.mpr fun d hmem => isBlank_of_spacing (List.all_eq_true.mp hblanks d hmem)
  have htext : mark ++ spell pieces =
      trimmed (mark ++ plain head) ++ (blanks ++ c :: plain tail) := by
    rw [hplain, ← List.append_assoc, ← List.append_assoc, ← hcut]
    rfl
  rw [any_contains_row hscanned htext hrow (isBlank_of_spacing hblank), ← hcut, hself]

end Spacing

end CSharpTidy
