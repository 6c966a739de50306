import CSharpTidy.Proofs.Order.Between
import CSharpTidy.Proofs.Order.Fix
import CSharpTidy.Proofs.Order.Standing

/-!
# The preprocessor lines of a text

A preprocessor line stands outside the directives, or inside one of them, between its keyword and its
semicolon. In a text that is laid out, the lines are those of a row of slots: the lines of the gaps, and
those that the texts of the directives have by themselves.
-/

namespace CSharpTidy

open List (Forall₂)
open Piece (width spell locate Scanned)

def Token.lines (tokens : List Token) : List Token :=
  tokens.filter fun token => token.kind == .preprocessor

def Text.preprocessorLines (text : Text) : List Text :=
  match tokenize text with
  | .ok tokens => (Token.lines tokens).map Token.lexeme
  | .error _ => []

namespace Piece

variable {rest : Text} {lineStart : Bool} {offset : Nat} {pieces : List Piece} {token : Token}

def lines (pieces : List Piece) : List Text :=
  ((tokens pieces).filter fun token => token.1 == .preprocessor).map Prod.snd

theorem lexeme_lines_locate (offset : Nat) (pieces : List Piece) :
    (Token.lines (locate offset pieces)).map Token.lexeme = lines pieces := by
  rw [lines, ← map_locate offset, List.filter_map, List.map_map]
  rfl

theorem mem_lines_iff : token ∈ Token.lines (locate offset pieces) ↔
    token ∈ locate offset pieces ∧ token.kind = .preprocessor := by
  rw [Token.lines, List.mem_filter, beq_iff_eq]

theorem lines_ne_nil_iff :
    lines pieces ≠ [] ↔ ((tokens pieces).any fun token => token.1 == .preprocessor) = true := by
  rw [lines, Ne, List.map_eq_nil_iff, List.filter_eq_nil_iff, List.any_eq_true]
  simp

end Piece

theorem Token.lines_append (first second : List Token) :
    lines (first ++ second) = lines first ++ lines second :=
  List.filter_append ..

namespace DirectiveSlot

variable {slot slot' : DirectiveSlot} {offset : Nat}

theorem Reads.width_pos (h : slot.Reads) : 0 < width slot.body := by
  obtain ⟨c, text, hspell, -⟩ := h.opens
  have hsize : width slot.body = c.utf8Size + Text.size text := by
    rw [width, hspell]
    rfl
  have := c.utf8Size_pos
  omega

/-- No preprocessor line opens a directive. -/
theorem Reads.lt_of_line (h : slot.Reads) {line : Token}
    (hmem : line ∈ Token.lines (locate offset slot.body)) : offset < line.start := by
  obtain ⟨c, text, hspell, hletter⟩ := h.opens
  obtain ⟨hscanned, -⟩ := h.scans [] false
  obtain ⟨hmem, hkind⟩ := Piece.mem_lines_iff.mp hmem
  generalize slot.body = body at hspell hscanned hmem
  cases body with
  | nil => cases hspell
  | cons piece pieces =>
      cases piece with
      | blank d =>
          have hstart := ((Piece.ordered_locate hscanned.2 _).1 line hmem).1
          have := d.utf8Size_pos
          omega
      | token kind lexeme =>
          obtain ⟨⟨d, tail, rfl, -, hhead⟩, hrest⟩ := hscanned
          obtain rfl : d = c := (List.cons.inj hspell).1
          rcases List.mem_cons.mp hmem with rfl | hmem
          · obtain rfl : kind = .preprocessor := hkind
            obtain ⟨-, rfl, -⟩ | ⟨hother, -⟩ := ((Scan.head_eq_line_iff rfl).mp hhead).1
            · exact absurd hletter (by decide)
            · cases hother
          · have hstart := ((Piece.ordered_locate hrest _).1 line hmem).1
            have := d.utf8Size_pos
            have hsize : Text.size (d :: tail) = d.utf8Size + Text.size tail := rfl
            omega

theorem Reads.preprocessorLines_eq (h : slot.Reads) :
    (spell slot.body).preprocessorLines = Piece.lines slot.body := by
  have hcut : Piece.Cut (spell slot.body) [] slot.body := by
    refine ⟨rfl, (h.scans [] true).1, .inr ⟨rfl, ?_⟩⟩
    obtain ⟨c, text, hspell, hletter⟩ := h.opens
    rw [hspell]
    rintro ⟨⟩
    exact absurd hletter (by decide)
  rw [Text.preprocessorLines, hcut.tokenize_eq]
  exact Piece.lexeme_lines_locate _ _

/-- What a directive says is told by its text. -/
theorem Reads.content_eq (h : slot.Reads) (h' : slot'.Reads)
    (hspell : spell slot.body = spell slot'.body) : slot.content = slot'.content := by
  have hlocate : locate 0 slot.body = locate 0 slot'.body := by
    have hscan := Scan.tokens_spell (h.scans [] false).1 0
    rw [hspell, Scan.tokens_spell (h'.scans [] false).1 0] at hscan
    exact (Except.ok.inj hscan).symm
  obtain ⟨found, hfound, -, hcontent⟩ := h.segment 0
  obtain ⟨found', hfound', -, hcontent'⟩ := h'.segment 0
  have hsegment := hfound false []
  have hsegment' := hfound' false []
  rw [Piece.code, hlocate] at hsegment
  rw [Piece.code] at hsegment'
  generalize Token.code (locate 0 slot'.body) = segment at hsegment hsegment'
  cases hsegment with
  | directive hopens hne hbody =>
      cases hsegment' with
      | directive hopens' hne' hbody' =>
          rw [hopens] at hopens'
          obtain ⟨rfl, rfl⟩ := Prod.mk.inj (Option.some.inj hopens')
          rw [hbody] at hbody'
          obtain ⟨rfl, -⟩ := Prod.mk.inj (Except.ok.inj hbody')
          rw [← hcontent, ← hcontent']

end DirectiveSlot

namespace DirectiveOrder

variable {policy : OrderPolicy} {text text' mark : Text} {late : List Text} {tree tree' : Tree}
  {chunks chunks' : List Chunk} {tail : List Piece} {slots : List DirectiveSlot} {offset : Nat}
  {earlier directives : List Directive} {lineStart : Bool}

/-- Whether a line stands inside one of the directives. -/
def encloses (directives : List Directive) (line : Token) : Bool :=
  directives.any fun directive =>
    decide (directive.span.start ≤ line.start) && decide (line.stop ≤ directive.span.stop)

/-- Lines, each with the sources of the directives that begin before it. -/
def standings (text : Text) (directives : List Directive) (lines : List Token) :
    List (Text × List Text) :=
  lines.map fun line => (line.lexeme, (directives.filter fun directive =>
    decide (directive.span.start < line.start)).map fun directive => directive.span.slice text)

theorem standings_append (text : Text) (directives : List Directive) (lines lines' : List Token) :
    standings text directives (lines ++ lines') =
      standings text directives lines ++ standings text directives lines' :=
  List.map_append

theorem filter_begun {position : Nat}
    (hearlier : ∀ directive ∈ earlier, directive.span.start < position)
    (hlater : ∀ directive ∈ directives, position ≤ directive.span.start) :
    ((earlier ++ directives).filter fun directive => decide (directive.span.start < position)) =
      earlier := by
  have hkept : earlier.filter (fun directive => decide (directive.span.start < position)) = earlier :=
    List.filter_eq_self.mpr fun directive hmem => decide_eq_true (hearlier directive hmem)
  have hdropped :
      directives.filter (fun directive => decide (directive.span.start < position)) = [] :=
    List.filter_eq_nil_iff.mpr fun directive hmem => by simpa using hlater directive hmem
  rw [List.filter_append, hkept, hdropped, List.append_nil]

theorem standings_eq_map {lines : List Token} {passed : List Text}
    (hpassed : passed = earlier.map fun directive => directive.span.slice text)
    (hlines : ∀ line ∈ lines, (∀ directive ∈ earlier, directive.span.start < line.start) ∧
      ∀ directive ∈ directives, line.start ≤ directive.span.start) :
    standings text (earlier ++ directives) lines = (lines.map Token.lexeme).map (·, passed) := by
  rw [standings, List.map_map]
  refine List.map_congr_left fun line hmem => ?_
  obtain ⟨hearlier, hlater⟩ := hlines line hmem
  rw [filter_begun hearlier hlater, ← hpassed]
  rfl

theorem encloses_eq_false {line : Token} (h : ∀ directive ∈ directives,
    directive.span.stop < line.stop ∨ line.start < directive.span.start) :
    encloses directives line = false := by
  rw [encloses, List.any_eq_false]
  intro directive hmem hinside
  simp only [Bool.and_eq_true, decide_eq_true_eq] at hinside
  have := h directive hmem
  omega

theorem standings_outside (inner : Bool) {lines : List Token} {passed : List Text}
    (hpassed : passed = earlier.map fun directive => directive.span.slice text)
    (hearlier : ∀ directive ∈ earlier, directive.span.start < offset ∧ directive.span.stop ≤ offset)
    (hlines : ∀ line ∈ lines, offset ≤ line.start ∧ line.start < line.stop ∧
      ∀ directive ∈ directives, line.stop ≤ directive.span.start) :
    standings text (earlier ++ directives)
        (lines.filter fun line => inner || !encloses (earlier ++ directives) line) =
      (lines.map Token.lexeme).map (·, passed) := by
  have houtside : ∀ line ∈ lines, encloses (earlier ++ directives) line = false := by
    intro line hmem
    obtain ⟨hstart, hlt, hlater⟩ := hlines line hmem
    refine encloses_eq_false fun directive hdirective => ?_
    rcases List.mem_append.mp hdirective with hdirective | hdirective
    · have := hearlier directive hdirective
      omega
    · have := hlater directive hdirective
      omega
  rw [List.filter_eq_self.mpr fun line hmem => by rw [houtside line hmem, Bool.not_false, Bool.or_true]]
  refine standings_eq_map hpassed fun line hmem => ?_
  obtain ⟨hstart, hlt, hlater⟩ := hlines line hmem
  refine ⟨fun directive hdirective => ?_, fun directive hdirective => ?_⟩
  · have := hearlier directive hdirective
    omega
  · have := hlater directive hdirective
    omega

theorem standings_inside (inner : Bool) {directive : Directive} {lines : List Token}
    {passed : List Text}
    (hpassed : passed = (earlier ++ [directive]).map fun directive => directive.span.slice text)
    (hearlier : ∀ other ∈ earlier, other.span.start < offset)
    (hlines : ∀ line ∈ lines, offset ≤ line.start ∧ directive.span.start < line.start ∧
      line.stop ≤ directive.span.stop ∧ ∀ later ∈ directives, line.start ≤ later.span.start) :
    standings text (earlier ++ directive :: directives)
        (lines.filter fun line => inner || !encloses (earlier ++ directive :: directives) line) =
      (if inner then lines.map Token.lexeme else []).map (·, passed) := by
  have hinside : ∀ line ∈ lines, encloses (earlier ++ directive :: directives) line = true := by
    intro line hmem
    obtain ⟨-, hstart, hstop, -⟩ := hlines line hmem
    refine List.any_eq_true.mpr ⟨directive, by simp, ?_⟩
    simp only [Bool.and_eq_true, decide_eq_true_eq]
    omega
  cases inner with
  | false =>
      rw [List.filter_eq_nil_iff.mpr fun line hmem => by simp [hinside line hmem]]
      rfl
  | true =>
      simp only [Bool.true_or, List.filter_true, if_true]
      rw [List.append_cons]
      refine standings_eq_map hpassed fun line hmem => ?_
      obtain ⟨hoffset, hstart, -, hlater⟩ := hlines line hmem
      refine ⟨fun other hother => ?_, hlater⟩
      rcases List.mem_append.mp hother with hother | hother
      · have := hearlier other hother
        omega
      · rwa [List.mem_singleton.mp hother]

/-- Lines among pieces stand in front of the directives behind these pieces. -/
theorem lines_before {pieces : List Piece} {rest : Text} (hscanned : Scanned rest lineStart pieces)
    (hlater : ∀ later ∈ directives, offset + width pieces ≤ later.span.start) :
    ∀ line ∈ Token.lines (locate offset pieces), offset ≤ line.start ∧ line.start < line.stop ∧
      ∀ later ∈ directives, line.stop ≤ later.span.start := by
  intro line hmem
  obtain ⟨hstart, hlt, hstop⟩ :=
    (Piece.ordered_locate hscanned offset).1 line (Piece.mem_lines_iff.mp hmem).1
  exact ⟨hstart, hlt, fun later hmem => Nat.le_trans hstop (hlater later hmem)⟩

/-- The lines of a row of slots, with those inside directives or without. -/
theorem standings_locate (inner : Bool) (pending : List Text) {passed : List Text}
    (h : DirectiveSlot.Holds offset slots directives) (hreads : ∀ slot ∈ slots, slot.Reads)
    (hscanned : Scanned [] lineStart (DirectiveSlot.all slots ++ tail))
    (hpassed : passed = earlier.map fun directive => directive.span.slice text)
    (hearlier : ∀ directive ∈ earlier, directive.span.start < offset ∧ directive.span.stop ≤ offset)
    (hslices : (directives.map fun directive => directive.span.slice text) =
      slots.map fun slot => spell slot.body) :
    pending.map (·, passed) ++ standings text (earlier ++ directives)
        ((Token.lines (locate offset (DirectiveSlot.all slots ++ tail))).filter fun line =>
          inner || !encloses (earlier ++ directives) line) =
      standing (fun source => if inner then source.preprocessorLines else [])
        (Piece.lines tail) pending passed (slots.map fun slot => Piece.lines slot.gap)
        (slots.map fun slot => spell slot.body) := by
  induction h generalizing earlier pending passed lineStart with
  | @nil offset =>
      rw [DirectiveSlot.all, List.flatMap_nil, List.nil_append] at hscanned ⊢
      have hlines : ∀ line ∈ Token.lines (locate offset tail), offset ≤ line.start ∧
          line.start < line.stop ∧ ∀ later ∈ ([] : List Directive), line.stop ≤ later.span.start :=
        lines_before hscanned fun _ hmem => absurd hmem List.not_mem_nil
      rw [standings_outside inner hpassed hearlier hlines, Piece.lexeme_lines_locate, List.map_nil,
        List.map_nil, standing.eq_2 _ _ _ _ _ _ (by simp), List.map_append]
  | @cons offset slot directive slots directives hspan hcontent hrest ih =>
      obtain ⟨hfirst, hslices⟩ := List.cons.inj hslices
      have hslice : directive.span.slice text = spell slot.body := hfirst
      have hreadSlot := hreads slot List.mem_cons_self
      rw [DirectiveSlot.all_cons_append] at hscanned ⊢
      obtain ⟨hgap, hscanned⟩ := Piece.scanned_append.mp hscanned
      obtain ⟨hbody, hscanned⟩ := Piece.scanned_append.mp hscanned
      have hwidth : width slot.pieces = width slot.gap + width slot.body := by
        rw [DirectiveSlot.pieces, Piece.width_append]
      have hlater := (pairwise_of_holds hrest).1
      have hstart : directive.span.start = offset + width slot.gap := by rw [hspan]
      have hstop : directive.span.stop = offset + width slot.gap + width slot.body := by rw [hspan]
      have hnext : passed ++ [spell slot.body] =
          (earlier ++ [directive]).map fun directive => directive.span.slice text := by
        rw [List.map_append, hpassed, List.map_singleton, hslice]
      have hbehind : ∀ later ∈ directives, offset + width slot.gap + width slot.body ≤ later.span.start := by
        intro later hmem
        have := hlater later hmem
        omega
      have hgapLines : ∀ line ∈ Token.lines (locate offset slot.gap), offset ≤ line.start ∧
          line.start < line.stop ∧ ∀ later ∈ directive :: directives, line.stop ≤ later.span.start :=
        lines_before hgap (List.forall_mem_cons.mpr ⟨Nat.le_of_eq hstart.symm, fun later hmem =>
          Nat.le_trans (Nat.le_add_right _ _) (hbehind later hmem)⟩)
      have hbodyLines : ∀ line ∈ Token.lines (locate (offset + width slot.gap) slot.body),
          offset ≤ line.start ∧ directive.span.start < line.start ∧
            line.stop ≤ directive.span.stop ∧ ∀ later ∈ directives, line.start ≤ later.span.start := by
        intro line hmem
        have hinside := hreadSlot.lt_of_line hmem
        obtain ⟨-, hlt, hlast⟩ :=
          (Piece.ordered_locate hbody _).1 line (Piece.mem_lines_iff.mp hmem).1
        refine ⟨by omega, by omega, by omega, fun later hmem => ?_⟩
        have := hbehind later hmem
        omega
      have hbegun : ∀ other ∈ earlier ++ [directive],
          other.span.start < offset + width slot.pieces ∧
            other.span.stop ≤ offset + width slot.pieces := by
        intro other hmem
        rcases List.mem_append.mp hmem with hmem | hmem
        · have := hearlier other hmem
          omega
        · have := hreadSlot.width_pos
          rw [List.mem_singleton.mp hmem]
          omega
      have hcut : locate offset (slot.gap ++ (slot.body ++ (DirectiveSlot.all slots ++ tail))) =
          locate offset slot.gap ++ (locate (offset + width slot.gap) slot.body ++
            locate (offset + width slot.pieces) (DirectiveSlot.all slots ++ tail)) := by
        rw [Piece.locate_append, Piece.locate_append, hwidth, ← Nat.add_assoc]
        rfl
      rw [List.map_cons, List.map_cons, standing,
        ← ih _ (fun later hmem => hreads later (List.mem_cons_of_mem _ hmem)) hscanned hnext hbegun
          hslices,
        hcut, Token.lines_append, Token.lines_append, List.filter_append, List.filter_append,
        standings_append, standings_append, standings_outside inner hpassed hearlier hgapLines,
        standings_inside inner hnext (fun other hmem => (hearlier other hmem).1) hbodyLines,
        Piece.lexeme_lines_locate, Piece.lexeme_lines_locate, hreadSlot.preprocessorLines_eq,
        ← List.append_cons, List.map_append, List.append_assoc]

theorem standings_of_laid (h : Laid text mark chunks tree) (inner : Bool) :
    standings text tree.allDirectives
        ((Token.lines (locate mark.size (Chunk.all chunks))).filter fun line =>
          inner || !encloses tree.allDirectives line) =
      standing (fun source => if inner then source.preprocessorLines else [])
        (Piece.lines (Chunk.join [] chunks).tail) [] []
        ((Chunk.join [] chunks).slots.map fun slot => Piece.lines slot.gap)
        ((Chunk.join [] chunks).slots.map fun slot => spell slot.body) := by
  have hpieces := Chunk.join_pieces [] chunks
  rw [List.nil_append, Chunk.pieces] at hpieces
  have hscanned := h.cut.scanned
  rw [← hpieces] at hscanned
  have hsummary := h.holds_join.summary (spell (Chunk.join [] chunks).tail)
  rw [← text_eq_of_laid h] at hsummary
  have hslices := congrArg (List.map Prod.fst) hsummary
  rw [List.map_map, List.map_map] at hslices
  rw [allDirectives_eq h, ← hpieces]
  have hnone : ∀ directive ∈ ([] : List Directive),
      directive.span.start < mark.size ∧ directive.span.stop ≤ mark.size := by simp
  have hlines := standings_locate inner [] h.holds_join (Chunk.forall_slots_join h.reads []) hscanned
    rfl hnone hslices
  exact hlines

end DirectiveOrder

end CSharpTidy
