import CSharpTidy.Proofs.Format.Lexeme
import CSharpTidy.Proofs.Format.Spaced

/-!
# Trimmed texts scan

A trimmed text scans into the tokens it had, with comments and preprocessor lines trimmed. One of these
can lose a carriage return to the end of its line, where the blanks behind it are gone, or take one up,
where a line end of two characters is added behind it.
-/

namespace CSharpTidy

namespace Spacing

open Piece (spell tagged tokens Scanned)
open Scan (breaks carriage)

variable {kind : TokenKind} {text tail final : Text} {lineStart want trim : Bool} {c : Char}
  {pieces others : List Piece} {marked : List (Char × Bool)}

/-- What formatting makes of a lexeme. Code stays, and comments and preprocessor lines are trimmed, up
to a carriage return at the end of a line. -/
def Tidied (kind : TokenKind) (lexeme lexeme' : Text) : Prop :=
  if kind.isTrivia then
    Trimmed lexeme lexeme' ∨
      kind.isLine = true ∧
        (Trimmed lexeme (lexeme' ++ ['\r']) ∨ ∃ line, lexeme' = line ++ ['\r'] ∧ Trimmed lexeme line)
  else lexeme' = lexeme

def Tidies (first second : TokenKind × Text) : Prop :=
  second.1 = first.1 ∧ Tidied first.1 first.2 second.2

/-! ## Lines -/

/-- The end of a line stays one, and can grow by a carriage return. -/
theorem ends_strip (hfinal : IsFinal final) (trim : Bool) (h : ends (plain marked) = true) :
    breaks (plain (strip trim [] marked) ++ final) = true ∨
      ∃ text, plain (strip trim [] marked) ++ final = '\r' :: text ∧ ends text = true := by
  cases marked with
  | nil =>
      rcases hfinal with rfl | rfl | rfl
      · exact .inl rfl
      · exact .inl rfl
      · exact .inr ⟨['\n'], rfl, rfl⟩
  | cons item marked =>
      obtain ⟨c, quoted⟩ := item
      change ends (c :: plain marked) = true at h
      rw [ends, breaks, carriage, Bool.or_eq_true, Bool.and_eq_true, beq_iff_eq, beq_iff_eq] at h
      rcases h with rfl | ⟨rfl, hbreaks⟩
      · rw [strip_cons_of_not_isBlank rfl]
        exact .inl rfl
      · rw [strip_cons_of_not_isBlank rfl]
        refine .inr ⟨plain (strip trim [] marked) ++ final, rfl, ?_⟩
        cases marked with
        | nil => rcases hfinal with rfl | rfl | rfl <;> rfl
        | cons item marked =>
            obtain ⟨d, quoted'⟩ := item
            obtain rfl : d = '\n' := by simpa [plain, breaks] using hbreaks
            rw [strip_cons_of_not_isBlank rfl]
            rfl

theorem takes_line (hkind : kind.isLine = true) (hblank : Scan.isBlank c = false)
    (hopens : Scan.opensLine lineStart kind c (tail ++ text)) (hline : '\n' ∉ tail)
    (hends : breaks text = true ∧ tail.getLast? ≠ some '\r' ∨ carriage text = true) :
    Scan.Takes lineStart kind (c :: tail) text :=
  ⟨c, tail, rfl, hblank,
    (Scan.head_eq_line_iff hkind).mpr ⟨hopens, Scan.lineLength_eq_iff.mpr ⟨hline, hends⟩⟩⟩

theorem opensLine_append (h : Scan.opensLine lineStart kind c tail) (text : Text) :
    Scan.opensLine lineStart kind c (tail ++ text) := by
  rcases h with h | ⟨hkind, hc, hhead⟩
  · exact .inl h
  · obtain ⟨rest, rfl⟩ := List.head?_eq_some_iff.mp hhead
    exact .inr ⟨hkind, hc, rfl⟩

theorem opensLine_of_concat (h : Scan.opensLine lineStart kind c (tail ++ ['\r'])) :
    Scan.opensLine lineStart kind c tail := by
  rcases h with h | ⟨hkind, hc, hhead⟩
  · exact .inl h
  · cases tail with
    | nil => exact absurd hhead (by decide)
    | cons d tail => exact .inr ⟨hkind, hc, hhead⟩

theorem exists_blank_return (hscanned : Scanned [] lineStart pieces)
    (h : spell pieces = '\r' :: text) : ∃ rest, pieces = .blank '\r' :: rest ∧ spell rest = text := by
  cases pieces with
  | nil => cases h
  | cons piece pieces =>
      cases piece with
      | blank d =>
          obtain ⟨rfl, rfl⟩ := List.cons.inj h
          exact ⟨pieces, rfl, rfl⟩
      | token kind lexeme =>
          obtain ⟨⟨d, tail, rfl, hblank, -⟩, -⟩ := hscanned
          obtain ⟨rfl, -⟩ := List.cons.inj h
          exact absurd hblank (by decide)

/-- A line token in front of the end of its line, give or take a carriage return. -/
theorem exists_line_token (hkind : kind.isLine = true) (hblank : Scan.isBlank c = false)
    (hopens : Scan.opensLine lineStart kind c tail) (hline : '\n' ∉ tail)
    (hscanned : Scanned [] false others)
    (hends : breaks (spell others) = true ∨
      ∃ text, spell others = '\r' :: text ∧ ends text = true) :
    ∃ tail' others', tag false tail' ++ tagged others' = tag false tail ++ tagged others ∧
      Scan.Takes lineStart kind (c :: tail') (spell others') ∧ Scanned [] false others' ∧
        tokens others' = tokens others ∧ (∀ want, Spaced want others → Spaced want others') ∧
          (tail' = tail ∨ tail = tail' ++ ['\r'] ∨ tail' = tail ++ ['\r']) := by
  rcases hends with hbreaks | ⟨text, htext, hends⟩
  · by_cases hlast : tail.getLast? = some '\r'
    · -- the carriage return goes to the end of the line
      obtain ⟨tail, rfl⟩ := List.getLast?_eq_some_iff.mp hlast
      have hcarriage : carriage ('\r' :: spell others) = true := hbreaks
      refine ⟨tail, .blank '\r' :: others, ?_, takes_line hkind hblank
        (opensLine_append (opensLine_of_concat hopens) _) ?_ (.inr hcarriage), ⟨rfl, hscanned⟩,
        rfl, fun want h => h, .inr (.inl rfl)⟩
      · rw [tag_append, List.append_assoc]
        rfl
      · exact fun hmem => hline (List.mem_append_left _ hmem)
    · exact ⟨tail, others, rfl, takes_line hkind hblank (opensLine_append hopens _) hline
        (.inl ⟨hbreaks, hlast⟩), hscanned, rfl, fun want h => h, .inl rfl⟩
  · rw [ends, Bool.or_eq_true] at hends
    rcases hends with hbreaks | hcarriage
    · have hcarriage : carriage (spell others) = true := by
        rw [htext]
        exact hbreaks
      exact ⟨tail, others, rfl, takes_line hkind hblank (opensLine_append hopens _) hline
        (.inr hcarriage), hscanned, rfl, fun want h => h, .inl rfl⟩
    · -- the carriage return is not the last one of its line
      obtain ⟨others, rfl, rfl⟩ := exists_blank_return hscanned htext
      refine ⟨tail ++ ['\r'], others, ?_, takes_line hkind hblank
        (opensLine_append (opensLine_append hopens _) _) ?_ (.inr hcarriage), hscanned.2, rfl,
        fun want h => h, .inr (.inr rfl)⟩
      · rw [tag_append, List.append_assoc]
        rfl
      · intro hmem
        rcases List.mem_append.mp hmem with hmem | hmem
        · exact hline hmem
        · exact absurd (List.mem_singleton.mp hmem) (by decide)

/-- What a line token sees of its line belongs to it. -/
theorem line_of_takes (hkind : kind.isLine = true)
    (h : Scan.Takes lineStart kind (c :: tail) text) :
    Scan.isBlank c = false ∧ Scan.opensLine lineStart kind c tail ∧ '\n' ∉ tail ∧
      ends text = true := by
  obtain ⟨d, tail', hlexeme, hblank, hhead⟩ := h
  obtain ⟨rfl, rfl⟩ := List.cons.inj hlexeme
  obtain ⟨hopens, hlength⟩ := (Scan.head_eq_line_iff hkind).mp hhead
  obtain ⟨hline, hends⟩ := Scan.lineLength_eq_iff.mp hlength
  have hends' : ends text = true := by
    rw [ends, Bool.or_eq_true]
    exact hends.imp_left And.left
  refine ⟨hblank, ?_, hline, hends'⟩
  rcases hopens with hopens | ⟨hkind, hc, hhead⟩
  · exact .inl hopens
  · cases tail with
    | nil =>
        obtain ⟨rest, rfl⟩ := List.head?_eq_some_iff.mp hhead
        rw [ends_of_ne (by decide) (by decide)] at hends'
        cases hends'
    | cons d tail => exact .inr ⟨hkind, hc, hhead⟩

/-! ## All tokens -/

/-- What is left of scanned pieces when they are trimmed, and a new line end, as pieces that scan into
the same tokens, tidied. -/
structure TrimmedTo (trim : Bool) (final : Text) (lineStart : Bool) (pieces pieces' : List Piece) :
    Prop where
  tagged_eq : tagged pieces' = strip trim [] (tagged pieces) ++ tag false final
  scanned : Scanned [] lineStart pieces'
  tidies : List.Forall₂ Tidies (tokens pieces) (tokens pieces')
  spaced : ∀ want, Spaced want pieces → Spaced want pieces'

namespace TrimmedTo

variable {pieces' : List Piece} {lexeme : Text}

theorem exists_nil (hfinal : IsFinal final) (trim lineStart : Bool) :
    ∃ pieces', TrimmedTo trim final lineStart [] pieces' := by
  rcases hfinal with rfl | rfl | rfl
  · exact ⟨[], rfl, trivial, .nil, fun _ h => h⟩
  · exact ⟨[.blank '\n'], rfl, ⟨rfl, trivial⟩, .nil, fun _ h => h⟩
  · exact ⟨[.blank '\r', .blank '\n'], rfl, ⟨rfl, rfl, trivial⟩, .nil, fun _ h => h⟩

theorem exists_blank (h : TrimmedTo trim final (lineStart || c == '\n') pieces pieces')
    (hblank : Scan.isBlank c = true) :
    ∃ pieces', TrimmedTo trim final lineStart (.blank c :: pieces) pieces' := by
  have hstrip : strip trim [] (tagged (.blank c :: pieces)) =
      if trim && isBlank c && !false && trims (plain (tagged pieces) ++ []) then
        strip trim [] (tagged pieces)
      else (c, false) :: strip trim [] (tagged pieces) := rfl
  split at hstrip
  · next hremoved =>
      simp only [Bool.and_eq_true] at hremoved
      have hfeed : (c == '\n') = false := by
        rw [beq_eq_false_iff_ne]
        rintro rfl
        exact absurd hremoved.1.1.2 (by decide)
      have hscanned := h.scanned
      rw [hfeed, Bool.or_false] at hscanned
      exact ⟨pieces', by rw [h.tagged_eq, hstrip], hscanned, h.tidies, h.spaced⟩
  · exact ⟨.blank c :: pieces', by rw [tagged, h.tagged_eq, hstrip]; rfl, ⟨hblank, h.scanned⟩, h.tidies,
      h.spaced⟩

theorem spell_eq (h : TrimmedTo trim final lineStart pieces pieces') :
    spell pieces' = plain (strip trim [] (tagged pieces)) ++ final := by
  rw [← Piece.plain_tagged, h.tagged_eq, plain_append, plain_tag]

theorem strip_token (h : TrimmedTo trim final false pieces pieces') (kind : TokenKind)
    (lexeme : Text) :
    strip trim [] (tagged (.token kind lexeme :: pieces)) ++ tag false final =
      tag (kind == .string) (pruned trim (kind == .string) (spell pieces) lexeme) ++
        tagged pieces' := by
  rw [tagged, strip_append, List.append_nil, Piece.plain_tagged, strip_tag, List.append_assoc,
    ← h.tagged_eq]

/-- Code stays, and what follows it comes into sight as before. -/
theorem code (h : TrimmedTo trim final false pieces pieces') (hfinal : IsFinal final)
    (htakes : Scan.Takes lineStart kind lexeme (spell pieces)) (hkind : kind.isTrivia = false) :
    TrimmedTo trim final lineStart (.token kind lexeme :: pieces) (.token kind lexeme :: pieces') where
  tagged_eq := by
    rw [h.strip_token, pruned_of_not_isTrivia htakes hkind]
    rfl
  scanned := by
    have hline : kind.isLine = false := by cases kind <;> first | rfl | cases hkind
    obtain ⟨c, tail, rfl, hblank, hhead⟩ := htakes
    refine ⟨⟨c, tail, rfl, hblank, Scan.head_append hline ?_ hhead⟩, h.scanned⟩
    rw [List.append_nil, h.spell_eq, sight_strip hfinal, Piece.plain_tagged]
  tidies := .cons ⟨rfl, by rw [Tidied, hkind]; rfl⟩ h.tidies
  spaced := fun want hspaced => by
    refine ⟨fun hword => ?_, h.spaced want hspaced.2⟩
    rw [h.spell_eq]
    refine Clear.strip ?_ hfinal trim
    rw [Piece.plain_tagged]
    exact hspaced.1 hword

theorem blockComment (h : TrimmedTo trim final false pieces pieces')
    (htakes : Scan.Takes lineStart .blockComment lexeme (spell pieces)) :
    TrimmedTo trim final lineStart (.token .blockComment lexeme :: pieces)
      (.token .blockComment (pruned trim false (spell pieces) lexeme) :: pieces') where
  tagged_eq := (h.strip_token .blockComment lexeme).symm
  scanned := by
    refine ⟨?_, h.scanned⟩
    exact takes_pruned_blockComment htakes trim false
  tidies := .cons ⟨rfl, .inl (trimmed_pruned trim false (spell pieces) lexeme)⟩ h.tidies
  spaced := fun want hspaced => by
    refine ⟨fun hword => ?_, h.spaced want hspaced.2⟩
    cases (isSpaced_iff.mp hword).1

/-- A comment or preprocessor line can lose a carriage return, or take one up. -/
theorem exists_line (h : TrimmedTo trim final false pieces pieces') (hfinal : IsFinal final)
    (htakes : Scan.Takes lineStart kind lexeme (spell pieces)) (hline : kind.isLine = true) :
    ∃ pieces', TrimmedTo trim final lineStart (.token kind lexeme :: pieces) pieces' := by
  have htrivia : kind.isTrivia = true := by cases kind <;> first | rfl | cases hline
  have hstring : (kind == .string) = false := by cases kind <;> first | rfl | cases hline
  have hword : ∀ lexeme, isSpaced kind lexeme = true → False := by
    intro lexeme hword
    rw [(isSpaced_iff.mp hword).1] at hline
    cases hline
  obtain ⟨c, tail, rfl, -⟩ := id htakes
  obtain ⟨hblank, hopens, hfeed, hends⟩ := line_of_takes hline htakes
  have hpruned : pruned trim false (spell pieces) (c :: tail) =
      c :: pruned trim false (spell pieces) tail :=
    pruned_cons_of_not_isBlank (not_isBlank_of_scan hblank) _ _ _ _
  have htrimmed := trimmed_pruned trim false (spell pieces) (c :: tail)
  have htagged := h.strip_token kind (c :: tail)
  rw [hpruned] at htrimmed
  rw [hstring, hpruned] at htagged
  have hends' := ends_strip hfinal trim (by rwa [Piece.plain_tagged])
  rw [← h.spell_eq] at hends'
  -- what opens the line is no blank, so it is still there
  have hopens' : Scan.opensLine lineStart kind c (pruned trim false (spell pieces) tail) := by
    rcases hopens with hopens | ⟨hcomment, hc, hhead⟩
    · exact .inl hopens
    · obtain ⟨rest, rfl⟩ := List.head?_eq_some_iff.mp hhead
      rw [pruned_cons_of_not_isBlank rfl]
      exact .inr ⟨hcomment, hc, rfl⟩
  -- between the two texts a carriage return may change sides, and the line may lose blanks
  obtain ⟨tail', others', htagged', htakes', hscanned', htokens', hspaced', htail⟩ :=
    exists_line_token hline hblank hopens' (fun hmem => hfeed (mem_of_mem_pruned hmem)) h.scanned hends'
  refine ⟨.token kind (c :: tail') :: others', ?_, ⟨by rwa [List.append_nil], hscanned'⟩,
    .cons ⟨rfl, ?_⟩ (by rw [htokens']; exact h.tidies),
    fun want hspaced => ⟨fun hspaced => (hword _ hspaced).elim, hspaced' want (h.spaced want hspaced.2)⟩⟩
  · rw [htagged, tagged, hstring]
    exact congrArg ((c, false) :: ·) htagged'
  · rw [Tidied, htrivia]
    rcases htail with rfl | htail | rfl
    · exact .inl htrimmed
    · rw [htail] at htrimmed
      exact .inr ⟨hline, .inl htrimmed⟩
    · exact .inr ⟨hline, .inr ⟨_, rfl, htrimmed⟩⟩

end TrimmedTo

/-- **Trimmed pieces.** Whatever pieces scan, they do so trimmed. -/
theorem exists_tidied (hfinal : IsFinal final) (trim : Bool) (hscanned : Scanned [] lineStart pieces) :
    ∃ pieces', TrimmedTo trim final lineStart pieces pieces' := by
  induction pieces generalizing lineStart with
  | nil => exact TrimmedTo.exists_nil hfinal trim lineStart
  | cons piece pieces ih =>
      cases piece with
      | blank c =>
          obtain ⟨pieces', htrimmed⟩ := ih hscanned.2
          exact htrimmed.exists_blank hscanned.1
      | token kind lexeme =>
          obtain ⟨htakes, hrest⟩ := hscanned
          obtain ⟨pieces', htrimmed⟩ := ih hrest
          rw [List.append_nil] at htakes
          cases hkind : kind.isTrivia with
          | false => exact ⟨_, htrimmed.code hfinal htakes hkind⟩
          | true =>
              cases hline : kind.isLine with
              | false =>
                  obtain rfl := TokenKind.eq_blockComment hkind hline
                  exact ⟨_, htrimmed.blockComment htakes⟩
              | true => exact htrimmed.exists_line hfinal htakes hline

end Spacing

end CSharpTidy
