import CSharpTidy.Proofs.Format.Code
import CSharpTidy.Proofs.Order.Arrange
import CSharpTidy.Proofs.Tree.Refill

/-!
# Preprocessor lines between directives

The rule scans the text between two directives by itself. It finds a preprocessor line there just where
the whole text has one between the two: no token of the gap needs what stands around it. So formatting,
which keeps the tokens, splits no scope and joins no regions.
-/

namespace CSharpTidy

open List (Forall₂)
open Piece (width spell locate Scanned code)

namespace Read

variable {tokens : List Token}

theorem Aliases.head? (h : Aliases tokens) : ∀ token ∈ tokens.head?, token.isWord "extern" = true := by
  cases h with
  | nil => exact fun _ hmem => by cases hmem
  | @cons segment rest hsegment hrest =>
      obtain ⟨⟨first, hfirst, hextern⟩, -⟩ := (hsegment false []).of_externAlias
      intro token hmem
      rw [Option.mem_def, List.head?_append, hfirst, Option.some_or, Option.some.injEq] at hmem
      rwa [← hmem]

theorem Aliases.getLast? (h : Aliases tokens) :
    ∀ token ∈ tokens.getLast?, token.isMark ';' = true := by
  induction h with
  | nil => exact fun _ hmem => by cases hmem
  | @cons segment rest hsegment hrest ih =>
      obtain ⟨-, ⟨last, hlast, hmark⟩, -⟩ := (hsegment false []).of_externAlias
      intro token hmem
      rw [Option.mem_def, List.getLast?_append] at hmem
      cases hrest : rest.getLast? with
      | some found =>
          rw [hrest, Option.some_or, Option.some.injEq] at hmem
          exact ih token (by rw [hrest, hmem]; rfl)
      | none =>
          rw [hrest, Option.none_or, hlast, Option.some.injEq] at hmem
          rwa [← hmem]

end Read

/-! ## Gaps scan by themselves -/

namespace Piece

variable {rest : Text} {lineStart : Bool} {gap pieces : List Piece} {offset : Nat}

theorem head?_locate_of_aliases (h : Read.Aliases (code offset gap)) :
    ∀ token ∈ (locate offset gap).head?, token.kind.isTrivia = true ∨
      token.isWord "extern" = true := by
  intro token hmem
  cases hkind : token.kind.isTrivia with
  | true => exact .inl rfl
  | false =>
      obtain ⟨others, hothers⟩ := List.head?_eq_some_iff.mp hmem
      refine .inr (h.head? token ?_)
      rw [code, Token.code, hothers, List.filter_cons, hkind]
      rfl

/-- A gap in front of a word scans in front of anything. -/
theorem Scanned.of_aliases {c : Char} (h : Scanned (c :: rest) lineStart gap)
    (hletter : c.isAlphanum = true) (haliases : Read.Aliases (code offset gap)) :
    Scanned [] lineStart gap := by
  rcases List.eq_nil_or_concat gap with rfl | ⟨front, piece, rfl⟩
  · trivial
  rw [List.concat_eq_append] at h haliases ⊢
  cases piece with
  | blank d => exact h.of_blank fun _ => rfl
  | token kind lexeme =>
      refine h.of_isClosed ?_ []
      obtain ⟨-, htakes⟩ := scanned_concat_token.mp h
      cases hline : kind.isLine with
      | true =>
          -- a token that runs to the end of its line has no word behind it
          exfalso
          obtain ⟨d, tail, rfl, -, hhead⟩ := htakes
          obtain ⟨-, hlength⟩ := (Scan.head_eq_line_iff hline).mp hhead
          have hne : ∀ mark : Char, mark.isAlphanum = false → (c == mark) = false := by
            intro mark hmark
            rw [beq_eq_false_iff_ne]
            rintro rfl
            rw [hletter] at hmark
            cases hmark
          obtain ⟨-, ⟨hbreaks, -⟩ | hcarriage⟩ := Scan.lineLength_eq_iff.mp hlength
          · rw [Scan.breaks, hne '\n' (by decide)] at hbreaks
            cases hbreaks
          · rw [Scan.carriage, hne '\r' (by decide), Bool.false_and] at hcarriage
            cases hcarriage
      | false =>
          cases htrivia : kind.isTrivia with
          | true =>
              obtain rfl := TokenKind.eq_blockComment htrivia hline
              rfl
          | false =>
              have hcode : code offset (front ++ [.token kind lexeme]) =
                  code offset front ++ [⟨kind, lexeme, offset + width front⟩] := by
                rw [code_append, code_token, htrivia]
                rfl
              have hmark := haliases.getLast? ⟨kind, lexeme, offset + width front⟩ (by
                rw [hcode, Option.mem_def, List.getLast?_concat])
              obtain rfl : kind = .punctuation ';' := beq_iff_eq.mp hmark
              rfl

theorem tokenize_gap {c : Char} (h : Scanned (c :: rest) lineStart gap)
    (hletter : c.isAlphanum = true) (haliases : ∀ offset, Read.Aliases (code offset gap)) :
    tokenize (spell gap) = .ok (locate 0 gap) := by
  have hfirst := head?_locate_of_aliases (haliases 0)
  have hscanned := (h.of_aliases hletter (haliases 0)).at_lineStart fun token hmem hkind => by
    rcases hfirst token hmem with htrivia | hword
    · rw [hkind] at htrivia
      cases htrivia
    · rw [(Token.isWord_iff.mp hword).1] at hkind
      cases hkind
  refine Cut.tokenize_eq ⟨rfl, hscanned, .inr ⟨rfl, ?_⟩⟩
  -- nothing that opens a gap is a byte-order mark
  intro hhead
  cases gap with
  | nil => cases hhead
  | cons piece gap =>
      cases piece with
      | blank d =>
          obtain rfl := Option.some.inj hhead
          exact absurd hscanned.1 (by decide)
      | token kind lexeme =>
          obtain ⟨⟨d, tail, rfl, -, htakes⟩, -⟩ := hscanned
          obtain rfl := Option.some.inj hhead
          rcases hfirst ⟨kind, byteOrderMark :: tail, 0⟩ rfl with htrivia | hword
          · cases hline : kind.isLine with
            | true =>
                obtain ⟨-, hhash, -⟩ | ⟨-, hslash, -⟩ := ((Scan.head_eq_line_iff hline).mp htakes).1
                · exact absurd hhash (by decide)
                · exact absurd hslash (by decide)
            | false =>
                obtain rfl := TokenKind.eq_blockComment htrivia hline
                obtain ⟨hslash, -⟩ := Scan.head_eq_blockComment_iff.mp htakes
                exact absurd hslash (by decide)
          · have hlexeme := (Token.isWord_iff.mp hword).2
            obtain ⟨hmark, -⟩ := List.cons.inj hlexeme
            exact absurd hmark (by decide)

theorem ordered_locate (h : Scanned rest lineStart pieces) (offset : Nat) :
    (∀ token ∈ locate offset pieces, offset ≤ token.start ∧ token.start < token.stop ∧
      token.stop ≤ offset + width pieces) ∧
      (locate offset pieces).Pairwise fun first second => first.stop ≤ second.start := by
  induction pieces generalizing lineStart offset with
  | nil => exact ⟨fun _ hmem => absurd hmem List.not_mem_nil, .nil⟩
  | cons piece pieces ih =>
      cases piece with
      | blank c =>
          obtain ⟨hbounds, hpairwise⟩ := ih h.2 (offset + c.utf8Size)
          have hwidth : width (.blank c :: pieces) = c.utf8Size + width pieces := rfl
          refine ⟨fun token hmem => ?_, hpairwise⟩
          obtain ⟨hstart, hlt, hstop⟩ := hbounds token hmem
          rw [hwidth]
          exact ⟨by omega, hlt, by omega⟩
      | token kind lexeme =>
          obtain ⟨hbounds, hpairwise⟩ := ih h.2 (offset + lexeme.size)
          obtain ⟨⟨c, tail, rfl, -⟩, -⟩ := h
          have hpos := c.utf8Size_pos
          have hsize : Text.size (c :: tail) = c.utf8Size + Text.size tail := rfl
          rw [hsize] at hbounds hpairwise
          refine ⟨fun token hmem => ?_, List.pairwise_cons.mpr ⟨fun later hmem => ?_, ?_⟩⟩
          · rw [width_token, hsize]
            rcases List.mem_cons.mp hmem with rfl | hmem
            · simp only [Token.stop, hsize]
              omega
            · rw [hsize] at hmem
              obtain ⟨hstart, hlt, hstop⟩ := hbounds token hmem
              exact ⟨by omega, hlt, by omega⟩
          · rw [hsize] at hmem
            simp only [Token.stop, hsize]
            exact (hbounds later hmem).1
          · rw [hsize]
            exact hpairwise

end Piece

/-! ## Splits told by tokens -/

def Token.splits (tokens : List Token) (start stop : Nat) : Bool :=
  tokens.any fun token =>
    token.kind == .preprocessor && decide (start ≤ token.start) && decide (token.stop ≤ stop)

theorem Token.splits_eq_any_filter (tokens : List Token) (start stop : Nat) :
    splits tokens start stop =
      (tokens.filter fun token => Span.containsSpan ⟨start, stop⟩ token.span).any fun token =>
        token.kind == .preprocessor := by
  rw [List.any_filter, splits]
  refine congrArg tokens.any (funext fun token => ?_)
  rw [Bool.and_comm (Span.containsSpan _ _), Bool.and_assoc]
  rfl

namespace Piece

variable {front gap back : List Piece} {lineStart : Bool} {offset : Nat}

theorem filter_locate (h : Scanned [] lineStart (front ++ (gap ++ back))) (offset : Nat) :
    ((locate offset (front ++ (gap ++ back))).filter fun token =>
      Span.containsSpan ⟨offset + width front, offset + width front + width gap⟩ token.span) =
        locate (offset + width front) gap := by
  obtain ⟨hfront, hrest⟩ := scanned_append.mp h
  obtain ⟨hgap, hback⟩ := scanned_append.mp hrest
  have hcut : locate offset (front ++ (gap ++ back)) =
      locate offset front ++ (locate (offset + width front) gap ++
        locate (offset + width front + width gap) back) := by
    rw [locate_append, locate_append]
    rfl
  rw [hcut, List.filter_append, List.filter_append, List.filter_eq_nil_iff.mpr ?_,
    List.filter_eq_self.mpr ?_, List.filter_eq_nil_iff.mpr ?_, List.nil_append, List.append_nil]
  · intro token hmem hinside
    obtain ⟨hstart, hlt, -⟩ := (ordered_locate hback _).1 token hmem
    obtain ⟨-, hstop⟩ := Span.containsSpan_iff.mp hinside
    exact absurd (Nat.lt_of_lt_of_le hlt hstop) (Nat.not_lt_of_le hstart)
  · intro token hmem
    obtain ⟨hstart, -, hstop⟩ := (ordered_locate hgap _).1 token hmem
    exact Span.containsSpan_iff.mpr ⟨hstart, hstop⟩
  · intro token hmem hinside
    obtain ⟨-, hlt, hstop⟩ := (ordered_locate hfront offset).1 token hmem
    obtain ⟨hstart, -⟩ := Span.containsSpan_iff.mp hinside
    exact absurd (Nat.lt_of_le_of_lt hstart hlt) (Nat.not_lt_of_le hstop)

theorem splits_locate (h : Scanned [] lineStart (front ++ (gap ++ back))) (offset : Nat) :
    Token.splits (locate offset (front ++ (gap ++ back))) (offset + width front)
        (offset + width front + width gap) =
      (tokens gap).any fun token => token.1 == .preprocessor := by
  rw [Token.splits_eq_any_filter, filter_locate h, ← map_locate (offset + width front), List.any_map]
  rfl

end Piece

namespace DirectiveOrder

variable {policy : OrderPolicy} {text text' mark : Text} {tokens tokens' : List Token}
  {late : List Text} {tree tree' : Tree} {chunks : List Chunk} {offset : Nat}
  {slots : List DirectiveSlot} {before after block block' : List Directive}
  {first second : Directive} {options : FormatSettings}

/-- Two neighbouring directives, as slots hold them, and the gap between them. -/
theorem exists_gap_of_holds
    (h : DirectiveSlot.Holds offset slots (before ++ first :: second :: after)) :
    ∃ front slot behind, DirectiveSlot.all slots = front ++ (slot.gap ++ (slot.body ++ behind)) ∧
      slot ∈ slots ∧ first.span.stop = offset + width front ∧
        second.span.start = offset + width front + width slot.gap := by
  induction before generalizing offset slots with
  | nil =>
      cases h with
      | @cons _ slot _ slots _ hspan hcontent hrest =>
          cases hrest with
          | @cons _ slot' _ slots _ hspan' hcontent' hrest' =>
              refine ⟨slot.pieces, slot', DirectiveSlot.all slots, ?_, by simp, ?_, ?_⟩
              · rw [Read.slot_all_cons, Read.slot_all_cons]
                simp only [DirectiveSlot.pieces, List.append_assoc]
              · rw [hspan, DirectiveSlot.pieces, Piece.width_append, Nat.add_assoc]
              · rw [hspan']
  | cons directive before ih =>
      cases h with
      | @cons _ slot _ slots _ hspan hcontent hrest =>
          obtain ⟨front, slot', behind, hall, hmem, hstop, hstart⟩ := ih hrest
          refine ⟨slot.pieces ++ front, slot', behind, ?_, List.mem_cons_of_mem _ hmem, ?_, ?_⟩
          · rw [Read.slot_all_cons, hall, List.append_assoc]
          · rw [hstop, Piece.width_append, Nat.add_assoc]
          · rw [hstart, Piece.width_append, ← Nat.add_assoc]

theorem exists_chunk_of_holds {blocks : List (List Directive)}
    (h : Chunk.Holds offset chunks blocks) (hblock : block ∈ blocks) :
    ∃ front chunk behind, Chunk.all chunks = front ++ (DirectiveSlot.all chunk.slots ++ behind) ∧
      chunk ∈ chunks ∧ DirectiveSlot.Holds (offset + width front) chunk.slots block := by
  induction h with
  | nil => cases hblock
  | @cons offset chunk directives chunks blocks hslots hrest ih =>
      rcases List.mem_cons.mp hblock with rfl | hblock
      · refine ⟨[], chunk, chunk.tail ++ Chunk.all chunks, ?_, List.mem_cons_self, hslots⟩
        rw [Read.chunk_all_cons, Chunk.pieces, List.append_assoc, List.nil_append]
      · obtain ⟨front, found, behind, hall, hmem, hholds⟩ := ih hblock
        refine ⟨chunk.pieces ++ front, found, behind, ?_, List.mem_cons_of_mem _ hmem, ?_⟩
        · rw [Read.chunk_all_cons, hall, List.append_assoc]
        · rw [Piece.width_append, ← Nat.add_assoc]
          exact hholds

/-- Neighbours in a block are split just where a preprocessor line stands between them. -/
def SplitsBy (text : Text) (tokens : List Token) (block : List Directive) : Prop :=
  ∀ before first second after, block = before ++ first :: second :: after →
    isSplit text (.ofDirective first) (.ofDirective second) =
      Token.splits tokens first.span.stop second.span.start

/-- The gaps of a text that is laid out scan by themselves. -/
theorem tokenize_gap_of_laid (hlaid : Laid text mark chunks tree)
    (haliases : ∀ chunk ∈ chunks, ∀ slot ∈ chunk.slots, ∀ offset,
      Read.Aliases (code offset slot.gap)) :
    ∀ chunk ∈ chunks, ∀ slot ∈ chunk.slots, tokenize (spell slot.gap) = .ok (locate 0 slot.gap) := by
  intro chunk hchunk slot hslot
  obtain ⟨before, after, rfl⟩ := List.append_of_mem hchunk
  obtain ⟨front, back, hslots⟩ := List.append_of_mem hslot
  have hpieces : Chunk.all (before ++ chunk :: after) =
      (Chunk.all before ++ DirectiveSlot.all front) ++ (slot.gap ++ (slot.body ++
        (DirectiveSlot.all back ++ (chunk.tail ++ Chunk.all after)))) := by
    simp [Chunk.all, Chunk.pieces, hslots, DirectiveSlot.all, DirectiveSlot.pieces]
  obtain ⟨c, word, hword, hletter⟩ := (hlaid.reads chunk hchunk slot hslot).opens
  have hscanned := hlaid.cut.scanned
  rw [hpieces] at hscanned
  have hgap := (Piece.scanned_append.mp (Piece.scanned_append.mp hscanned).2).1
  rw [Piece.spell_append, hword, List.append_nil, List.cons_append] at hgap
  exact Piece.tokenize_gap hgap hletter (haliases chunk hchunk slot hslot)

/-- Two neighbours of a block, the pieces of the gap between them, and the text of the gap, which scans
into these pieces by itself. -/
theorem exists_gap_of_read (hread : CSharp.read text = (late, .ok tree))
    (hblock : before ++ first :: second :: after ∈ tree.blocks) :
    ∃ mark front gap back, Piece.Cut text mark (front ++ (gap ++ back)) ∧
      first.span.stop = mark.size + width front ∧
        second.span.start = mark.size + width front + width gap ∧
          text.slice first.span.stop second.span.start = spell gap ∧
            tokenize (spell gap) = .ok (locate 0 gap) := by
  obtain ⟨mark, chunks, hlaid, haliases, -⟩ := exists_laid hread
  obtain ⟨lead, chunk, tail, hall, hchunk, hholds⟩ := exists_chunk_of_holds hlaid.holds hblock
  obtain ⟨inner, slot, behind, hslots, hslot, hstop, hstart⟩ := exists_gap_of_holds hholds
  have hpieces : Chunk.all chunks =
      (lead ++ inner) ++ (slot.gap ++ (slot.body ++ (behind ++ tail))) := by
    rw [hall, hslots]
    simp only [List.append_assoc]
  have hcut := hlaid.cut
  rw [hpieces] at hcut
  have hstop : first.span.stop = mark.size + width (lead ++ inner) := by
    rw [hstop, Piece.width_append, Nat.add_assoc]
  have hstart : second.span.start = mark.size + width (lead ++ inner) + width slot.gap := by
    rw [hstart, Piece.width_append, ← Nat.add_assoc mark.size]
  have hslice : text.slice first.span.stop second.span.start = spell slot.gap := by
    have hslice := Text.slice_append (mark ++ spell (lead ++ inner)) (spell slot.gap)
      (spell (slot.body ++ (behind ++ tail)))
    rw [Text.size_append, List.append_assoc, ← Piece.spell_append, ← Piece.spell_append,
      ← hcut.eq] at hslice
    rw [hstop, hstart]
    exact hslice
  exact ⟨mark, lead ++ inner, slot.gap, slot.body ++ (behind ++ tail), hcut, hstop, hstart, hslice,
    tokenize_gap_of_laid hlaid haliases chunk hchunk slot hslot⟩

/-- **Splits are told by the tokens of the text.** -/
theorem splitsBy_of_read (hread : CSharp.read text = (late, .ok tree))
    (htokens : tokenize text = .ok tokens) : ∀ block ∈ tree.blocks, SplitsBy text tokens block := by
  rintro block hblock before first second after rfl
  obtain ⟨mark, front, gap, back, hcut, hstop, hstart, hslice, htokenize⟩ :=
    exists_gap_of_read hread hblock
  rw [hcut.tokenize_eq, Except.ok.injEq] at htokens
  subst htokens
  rw [hstart, hstop, Piece.splits_locate hcut.scanned, ← Piece.map_locate 0, List.any_map]
  simp only [isSplit, ScopeDirective.ofDirective, hslice, htokenize]
  rfl

/-! ## Formatting keeps the splits -/

/-- Tokens in order, each with a lexeme. -/
def Ordered (tokens : List Token) : Prop :=
  (∀ token ∈ tokens, token.start < token.stop) ∧
    tokens.Pairwise fun first second => first.stop ≤ second.start

theorem ordered_of_tokenize (h : tokenize text = .ok tokens) : Ordered tokens := by
  obtain ⟨mark, pieces, hcut, rfl⟩ := exists_cut_of_tokenize h
  obtain ⟨hbounds, hpairwise⟩ := Piece.ordered_locate hcut.scanned mark.size
  exact ⟨fun token hmem => (hbounds token hmem).2.1, hpairwise⟩

theorem Ordered.stop_le_start_iff {first second : Token} {index index' : Nat} (h : Ordered tokens)
    (hfirst : tokens[index]? = some first) (hsecond : tokens[index']? = some second) :
    first.stop ≤ second.start ↔ index < index' := by
  obtain ⟨hlong, hpairwise⟩ := h
  have hlt := hlong first (List.mem_of_getElem? hfirst)
  have hlt' := hlong second (List.mem_of_getElem? hsecond)
  obtain ⟨hindex, rfl⟩ := List.getElem?_eq_some_iff.mp hfirst
  obtain ⟨hindex', rfl⟩ := List.getElem?_eq_some_iff.mp hsecond
  rw [List.pairwise_iff_getElem] at hpairwise
  constructor
  · intro hle
    refine Nat.lt_of_not_le fun hback => ?_
    rcases Nat.lt_or_eq_of_le hback with hback | rfl
    · have := hpairwise index' index hindex' hindex hback
      omega
    · omega
  · exact hpairwise index index' hindex hindex'

theorem splits_iff {first second : Token} {index index' : Nat} (h : Ordered tokens)
    (hfirst : tokens[index]? = some first) (hsecond : tokens[index']? = some second) :
    Token.splits tokens first.stop second.start = true ↔
      ∃ between token, tokens[between]? = some token ∧ token.kind = .preprocessor ∧
        index < between ∧ between < index' := by
  rw [Token.splits, List.any_eq_true]
  constructor
  · rintro ⟨token, hmem, hsplits⟩
    obtain ⟨between, hbetween⟩ := List.mem_iff_getElem?.mp hmem
    simp only [Bool.and_eq_true, beq_iff_eq, decide_eq_true_eq] at hsplits
    exact ⟨between, token, hbetween, hsplits.1.1,
      (h.stop_le_start_iff hfirst hbetween).mp hsplits.1.2,
      (h.stop_le_start_iff hbetween hsecond).mp hsplits.2⟩
  · rintro ⟨between, token, hbetween, hkind, hlow, hhigh⟩
    refine ⟨token, List.mem_of_getElem? hbetween, ?_⟩
    simp only [Bool.and_eq_true, beq_iff_eq, decide_eq_true_eq]
    exact ⟨⟨hkind, (h.stop_le_start_iff hfirst hbetween).mpr hlow⟩,
      (h.stop_le_start_iff hbetween hsecond).mpr hhigh⟩

theorem splits_moved {first' second' : Directive} (h : Ordered tokens) (h' : Ordered tokens')
    (htidied : Forall₂ Token.TidiedTo tokens tokens')
    (hfirst : Directive.Moved (Token.Counterpart tokens tokens') first first')
    (hsecond : Directive.Moved (Token.Counterpart tokens tokens') second second') :
    Token.splits tokens first.span.stop second.span.start =
      Token.splits tokens' first'.span.stop second'.span.start := by
  obtain ⟨_, _, last, last', _, ⟨_, index, hlast, hlast'⟩, hspan, hspan'⟩ := hfirst.span
  obtain ⟨opening, opening', _, _, ⟨_, index', hopening, hopening'⟩, _, hspan₂, hspan₂'⟩ :=
    hsecond.span
  have hstop : first.span.stop = last.stop := by rw [hspan]
  have hstop' : first'.span.stop = last'.stop := by rw [hspan']
  have hstart : second.span.start = opening.start := by rw [hspan₂]
  have hstart' : second'.span.start = opening'.start := by rw [hspan₂']
  rw [hstop, hstop', hstart, hstart', Bool.eq_iff_iff, splits_iff h hlast hopening,
    splits_iff h' hlast' hopening']
  have hkinds : tokens'.map Token.kind = tokens.map Token.kind :=
    Read.map_eq_of_forall₂ (htidied.imp fun _ _ h => h.1)
  have hindex : ∀ {tokens : List Token} {between : Nat},
      (∃ token, tokens[between]? = some token ∧ token.kind = .preprocessor) ↔
        (tokens.map Token.kind)[between]? = some .preprocessor := by
    intro tokens between
    rw [List.getElem?_map, Option.map_eq_some_iff]
  refine exists_congr fun between => ?_
  have hsame : (∃ token, tokens[between]? = some token ∧ token.kind = .preprocessor) ↔
      ∃ token, tokens'[between]? = some token ∧ token.kind = .preprocessor := by
    rw [hindex, hindex, hkinds]
  constructor
  · rintro ⟨token, hbetween, hkind, hlow, hhigh⟩
    obtain ⟨token', hbetween', hkind'⟩ := hsame.mp ⟨token, hbetween, hkind⟩
    exact ⟨token', hbetween', hkind', hlow, hhigh⟩
  · rintro ⟨token', hbetween', hkind', hlow, hhigh⟩
    obtain ⟨token, hbetween, hkind⟩ := hsame.mpr ⟨token', hbetween', hkind'⟩
    exact ⟨token, hbetween, hkind, hlow, hhigh⟩

theorem SplitsBy.tail {directive : Directive} (h : SplitsBy text tokens (directive :: block)) :
    SplitsBy text tokens block :=
  fun before first second after hcut =>
    h (directive :: before) first second after (by rw [hcut, List.cons_append])

variable {S : Directive → Directive → Prop}

theorem splitAlike_of_splits
    (hS : ∀ first first' second second', S first first' → S second second' →
      Token.splits tokens first.span.stop second.span.start =
        Token.splits tokens' first'.span.stop second'.span.start)
    (h : Forall₂ S block block') (hsplits : SplitsBy text tokens block)
    (hsplits' : SplitsBy text' tokens' block') :
    SplitAlike text text' (block.map ScopeDirective.ofDirective)
      (block'.map ScopeDirective.ofDirective) := by
  induction h with
  | nil => exact .nil
  | @cons first first' block block' hfirst hblock ih =>
      have hrest := ih hsplits.tail hsplits'.tail
      cases hblock with
      | nil => exact .single
      | @cons second second' block block' hsecond _ =>
          refine .cons ?_ hrest
          rw [hsplits [] first second block rfl, hsplits' [] first' second' block' rfl,
            hS first first' second second' hfirst hsecond]

theorem splitAlike_of_read {late' : List Text} (hread : CSharp.read text = (late, .ok tree))
    (hread' : CSharp.read text' = (late', .ok tree')) (htokens : tokenize text = .ok tokens)
    (htokens' : tokenize text' = .ok tokens')
    (hS : ∀ first first' second second', S first first' → S second second' →
      Token.splits tokens first.span.stop second.span.start =
        Token.splits tokens' first'.span.stop second'.span.start)
    (h : Forall₂ (Forall₂ S) tree.blocks tree'.blocks) :
    Forall₂ (fun block block' => SplitAlike text text' (block.map ScopeDirective.ofDirective)
      (block'.map ScopeDirective.ofDirective)) tree.blocks tree'.blocks := by
  obtain ⟨hlength, hmoved⟩ := List.forall₂_iff_zip.mp h
  refine List.forall₂_iff_zip.mpr ⟨hlength, fun hmem => ?_⟩
  obtain ⟨hblock, hblock'⟩ := List.of_mem_zip hmem
  exact splitAlike_of_splits hS (hmoved hmem) (splitsBy_of_read hread htokens _ hblock)
    (splitsBy_of_read hread' htokens' _ hblock')

/-- **Formatting splits nothing.** The scopes of a formatted text are split as they were. -/
theorem splitAlike_of_formatted (hread : CSharp.read text = (late, .ok tree))
    (hread' : CSharp.read text' = (late, .ok tree'))
    (hformatted : Spacing.Formatted options text tokens tree text' tokens' tree') :
    Forall₂ (fun block block' => SplitAlike text text' (block.map ScopeDirective.ofDirective)
      (block'.map ScopeDirective.ofDirective)) tree.blocks tree'.blocks :=
  splitAlike_of_read hread hread' hformatted.tokenized hformatted.tokenized'
    (fun _ _ _ _ => splits_moved (ordered_of_tokenize hformatted.tokenized)
      (ordered_of_tokenize hformatted.tokenized') hformatted.tidied) hformatted.moved

/-- **Formatting leaves settled scopes settled.** -/
theorem settled_of_formatted (hread : CSharp.read text = (late, .ok tree))
    (hread' : CSharp.read text' = (late, .ok tree'))
    (hformatted : Spacing.Formatted options text tokens tree text' tokens' tree')
    (h : ∀ block ∈ tree.blocks, Settled policy text (block.map ScopeDirective.ofDirective)) :
    ∀ block' ∈ tree'.blocks, Settled policy text' (block'.map ScopeDirective.ofDirective) := by
  intro block' hblock'
  have hblocks := List.Forall₂.mp (fun _ _ => And.intro)
    (splitAlike_of_formatted hread hread' hformatted) hformatted.moved
  obtain ⟨block, hblock, hsplit, hmoved⟩ := Read.exists_of_mem_forall₂ hblocks.flip hblock'
  refine (h block hblock).congr hsplit ?_
  rw [List.forall₂_map_left_iff, List.forall₂_map_right_iff]
  exact hmoved.imp fun _ _ h => ⟨h.name, h.isGlobal⟩

end DirectiveOrder

end CSharpTidy
