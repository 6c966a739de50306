import CSharpTidy.Proofs.Order.Between
import CSharpTidy.Proofs.Tree.Scopes

/-!
# The text between two directives

The rule scans the text between two directives by itself, as if it were a file: at the start of a line,
where a byte-order mark may stand, and with nothing behind. It gets the tokens that the whole text has
there, so a region ends just where the whole text has a preprocessor line.
-/

namespace CSharpTidy

open Piece (width spell locate)

namespace Piece

theorem map_shift_locate (start distance : Nat) (pieces : List Piece) :
    (locate start pieces).map (Token.shift distance) = locate (start + distance) pieces := by
  induction pieces generalizing start with
  | nil => rfl
  | cons piece pieces ih =>
      cases piece with
      | blank c => rw [locate, locate, ih, Nat.add_right_comm]
      | token kind lexeme =>
          rw [locate, locate, List.map_cons, ih, Nat.add_right_comm]
          rfl

theorem apart_locate {front gap back : List Piece} {lineStart : Bool}
    (h : Scanned [] lineStart (front ++ (gap ++ back))) (offset : Nat) :
    ∀ token ∈ locate offset (front ++ (gap ++ back)), token.stop ≤ offset + width front ∨
      Span.containsSpan ⟨offset + width front, offset + width front + width gap⟩ token.span = true ∨
        offset + width front + width gap ≤ token.start := by
  obtain ⟨hfront, hrest⟩ := scanned_append.mp h
  obtain ⟨hgap, hback⟩ := scanned_append.mp hrest
  intro token hmem
  rw [locate_append, locate_append] at hmem
  rcases List.mem_append.mp hmem with hmem | hmem
  · exact .inl ((ordered_locate hfront offset).1 token hmem).2.2
  rcases List.mem_append.mp hmem with hmem | hmem
  · obtain ⟨hstart, -, hstop⟩ := (ordered_locate hgap _).1 token hmem
    exact .inr (.inl (Span.containsSpan_iff.mpr ⟨hstart, hstop⟩))
  · exact .inr (.inr ((ordered_locate hback _).1 token hmem).1)

end Piece

namespace DirectiveOrder

variable {text : Text} {tokens : List Token} {tree : Tree} {late : List Text}
  {directives front back : List ScopeDirective} {first second : ScopeDirective}
  {regions' : List (List ScopeDirective)}

/-! ## Where regions end -/

/-- Of the regions of some directives, one ends with the last of a first part. -/
def EndsBetween (regions : List (List ScopeDirective)) (front back : List ScopeDirective) : Prop :=
  ∃ before after, regions = before ++ after ∧ before.flatten = front ∧ after.flatten = back

theorem regions_ne_nil (text : Text) (directives : List ScopeDirective) :
    ∀ region ∈ regions text directives, region ≠ [] := by
  fun_induction regions text directives with
  | case1 => simp
  | case2 => simp
  | case3 => simp
  | case4 first second rest region others hregions hsplit ih =>
      rw [hregions] at ih
      simpa using ih
  | case5 first second rest region others hregions hsplit ih =>
      rw [hregions] at ih
      simp only [List.forall_mem_cons] at ih ⊢
      exact ⟨List.cons_ne_nil first region, ih.2⟩

theorem endsBetween_single (first : ScopeDirective) :
    EndsBetween ([first] :: regions') (first :: front) back ↔ EndsBetween regions' front back := by
  constructor
  · rintro ⟨_ | ⟨region, before⟩, after, hregions, hfront, hback⟩
    · cases hfront
    · obtain ⟨rfl, rfl⟩ := List.cons.inj hregions
      exact ⟨before, after, rfl, (List.cons.inj hfront).2, hback⟩
  · rintro ⟨before, after, rfl, rfl, rfl⟩
    exact ⟨[first] :: before, after, rfl, rfl, rfl⟩

/-- A directive that joins the first region moves no end behind others. -/
theorem endsBetween_joined (first : ScopeDirective) {region : List ScopeDirective} (hne : front ≠ []) :
    EndsBetween ((first :: region) :: regions') (first :: front) back ↔
      EndsBetween (region :: regions') front back := by
  constructor
  · rintro ⟨_ | ⟨joined, before⟩, after, hregions, hfront, hback⟩
    · cases hfront
    · obtain ⟨rfl, rfl⟩ := List.cons.inj hregions
      exact ⟨region :: before, after, rfl, (List.cons.inj hfront).2, hback⟩
  · rintro ⟨_ | ⟨found, before⟩, after, hregions, hfront, hback⟩
    · exact absurd hfront.symm hne
    · obtain ⟨rfl, rfl⟩ := List.cons.inj hregions
      exact ⟨(first :: region) :: before, after, rfl, congrArg (first :: ·) hfront, hback⟩

/-- A region ends between two neighbours just where they are split. -/
theorem endsBetween_regions_iff :
    EndsBetween (regions text (front ++ first :: second :: back)) (front ++ [first]) (second :: back) ↔
      isSplit text first second = true := by
  induction front with
  | nil =>
      obtain ⟨region, others, hfound⟩ := exists_first_region text second back
      rw [List.nil_append, List.nil_append, regions, hfound]
      cases hsplit : isSplit text first second with
      | true =>
          have hflatten := regions_flatten text (second :: back)
          rw [hfound] at hflatten
          simp only [if_true, iff_true]
          exact ⟨[[first]], (second :: region) :: others, rfl, rfl, hflatten⟩
      | false =>
          simp only [Bool.false_eq_true, if_false, iff_false]
          rintro ⟨_ | ⟨joined, before⟩, after, hregions, hfront, -⟩
          · cases hfront
          · obtain ⟨rfl, -⟩ := List.cons.inj hregions
            simp at hfront
  | cons directive front ih =>
      obtain ⟨next, rest, hrest⟩ : ∃ next rest, front ++ first :: second :: back = next :: rest := by
        cases front with
        | nil => exact ⟨first, second :: back, rfl⟩
        | cons next front => exact ⟨next, front ++ first :: second :: back, rfl⟩
      obtain ⟨region, others, hfound⟩ := exists_first_region text next rest
      have hne : front ++ [first] ≠ [] := by simp
      rw [hrest, hfound] at ih
      rw [List.cons_append, List.cons_append, hrest, regions, hfound, ← ih]
      cases isSplit text directive next with
      | true => exact endsBetween_single directive
      | false => exact endsBetween_joined directive hne

/-! ## The tokens of a gap -/

/-- The tokens that the text between two directives scans into by itself are those of the whole text. -/
structure GapScans (text : Text) (tokens : List Token) (first second : ScopeDirective) : Prop where
  scans : ∃ gap, tokenize (text.slice first.span.stop second.span.start) = .ok gap ∧
    gap.map (Token.shift first.span.stop) = tokens.filter fun token =>
      Span.containsSpan ⟨first.span.stop, second.span.start⟩ token.span
  /-- No token lies across an end of the gap. -/
  apart : ∀ token ∈ tokens, token.stop ≤ first.span.stop ∨
    Span.containsSpan ⟨first.span.stop, second.span.start⟩ token.span = true ∨
      second.span.start ≤ token.start

theorem gapScans_of_read {before after : List Directive} {first second : Directive}
    (hread : CSharp.read text = (late, .ok tree)) (htokens : tokenize text = .ok tokens)
    (hblock : before ++ first :: second :: after ∈ tree.blocks) :
    GapScans text tokens (.ofDirective first) (.ofDirective second) := by
  obtain ⟨mark, front, gap, back, hcut, hstop, hstart, hslice, htokenize⟩ :=
    exists_gap_of_read hread hblock
  rw [hcut.tokenize_eq, Except.ok.injEq] at htokens
  subst htokens
  refine ⟨⟨locate 0 gap, ?_, ?_⟩, fun token hmem => ?_⟩
  · rw [← htokenize, ← hslice]
    rfl
  · rw [Piece.map_shift_locate, Nat.zero_add]
    simp only [ScopeDirective.ofDirective]
    rw [hstart, hstop, Piece.filter_locate hcut.scanned]
  · simp only [ScopeDirective.ofDirective]
    rw [hstart, hstop]
    exact Piece.apart_locate hcut.scanned mark.size token hmem

theorem exists_block_of_scope {scope : Scope} (hscope : scope ∈ tree.scopes)
    (hcut : scope.directives = front ++ first :: second :: back) :
    ∃ before first' second' after, before ++ first' :: second' :: after ∈ tree.blocks ∧
      first = .ofDirective first' ∧ second = .ofDirective second' := by
  have hmem := List.mem_map_of_mem (f := Scope.directives) hscope
  rw [tree.scopes_map_directives] at hmem
  obtain ⟨block, hblock, hdirectives⟩ := List.mem_map.mp hmem
  rw [hcut] at hdirectives
  obtain ⟨before, others, rfl, -, hothers⟩ := List.map_eq_append_iff.mp hdirectives
  obtain ⟨first', others, rfl, hfirst, hothers⟩ := List.map_eq_cons_iff.mp hothers
  obtain ⟨second', after, rfl, hsecond, -⟩ := List.map_eq_cons_iff.mp hothers
  exact ⟨before, first', second', after, hblock, hfirst.symm, hsecond.symm⟩

theorem splits_eq_true_iff {start stop : Nat} :
    Token.splits tokens start stop = true ↔ ∃ token ∈ tokens, token.kind = .preprocessor ∧
      Span.containsSpan ⟨start, stop⟩ token.span = true := by
  rw [Token.splits_eq_any_filter, List.any_eq_true]
  simp only [List.mem_filter, beq_iff_eq]
  exact exists_congr fun token => ⟨fun ⟨⟨hmem, hinside⟩, hkind⟩ => ⟨hmem, hkind, hinside⟩,
    fun ⟨hmem, hkind, hinside⟩ => ⟨⟨hmem, hinside⟩, hkind⟩⟩

/-- **Gaps scan as the text does.** Wherever a text has a tree, what stands between two neighbouring
directives of a scope scans by itself, into the tokens that the text has there. So a region ends between
the two exactly where the text has a preprocessor line between them. Regions are not empty, and make up
the directives of the scope. -/
theorem gaps_scan_alike {id : DocumentId} {path : Path} {text : Text} {tree : Tree}
    (hroot : (Document.parse CSharp.reader id path text).1.root = .ok tree) :
    ∃ tokens, tokenize text = .ok tokens ∧ ∀ scope ∈ tree.everyScope,
      (∀ region ∈ regions text scope.directives, region ≠ []) ∧
      (regions text scope.directives).flatten = scope.directives ∧
      ∀ front first second back, scope.directives = front ++ first :: second :: back →
        GapScans text tokens first second ∧
        (EndsBetween (regions text scope.directives) (front ++ [first]) (second :: back) ↔
          ∃ token ∈ tokens, token.kind = .preprocessor ∧
            Span.containsSpan ⟨first.span.stop, second.span.start⟩ token.span = true) := by
  obtain ⟨late, hread⟩ := Document.root_parse_eq_ok_iff.mp hroot
  obtain ⟨tokens, -, htokens, -⟩ := CSharp.read_eq_ok_iff.mp hread
  refine ⟨tokens, htokens, fun scope hscope => ⟨regions_ne_nil text scope.directives,
    regions_flatten text scope.directives, fun front first second back hcut => ?_⟩⟩
  rw [← tree.scopes_eq_everyScope] at hscope
  obtain ⟨before, first', second', after, hblock, rfl, rfl⟩ := exists_block_of_scope hscope hcut
  have hsplits := splitsBy_of_read hread htokens _ hblock before first' second' after rfl
  refine ⟨gapScans_of_read hread htokens hblock, ?_⟩
  rw [hcut, endsBetween_regions_iff, hsplits, splits_eq_true_iff]
  rfl

/-- A comment, an alias and a preprocessor line stand in the gap. -/
theorem gaps_scan_alike_of_alias :
    ∃ tree tokens first second,
      (Document.parse CSharp.reader ⟨0⟩ ⟨"a.cs"⟩
        "using B; // b\nextern alias C;\n#if X\nusing A;\n".toList).1.root = .ok tree ∧
      tokenize "using B; // b\nextern alias C;\n#if X\nusing A;\n".toList = .ok tokens ∧
      tree.fileScope.directives = [first, second] ∧
      GapScans "using B; // b\nextern alias C;\n#if X\nusing A;\n".toList tokens first second ∧
      (EndsBetween (regions "using B; // b\nextern alias C;\n#if X\nusing A;\n".toList
          tree.fileScope.directives) [first] [second] ↔
        ∃ token ∈ tokens, token.kind = .preprocessor ∧
          Span.containsSpan ⟨first.span.stop, second.span.start⟩ token.span = true) := by
  obtain ⟨tree, htree, hlength⟩ := Option.map_eq_some_iff.mp (by decide +kernel : (CSharp.tree?
    "using B; // b\nextern alias C;\n#if X\nusing A;\n".toList).map
      (fun tree => tree.fileScope.directives.length) = some 2)
  have hroot := Document.root_parse_of_tree? htree ⟨0⟩ ⟨"a.cs"⟩
  obtain ⟨first, second, hdirectives⟩ := List.length_eq_two.mp hlength
  obtain ⟨tokens, htokens, hscopes⟩ := gaps_scan_alike hroot
  obtain ⟨-, -, hgaps⟩ := hscopes tree.fileScope List.mem_cons_self
  obtain ⟨hscans, hends⟩ := hgaps [] first second [] hdirectives
  exact ⟨tree, tokens, first, second, hroot, htokens, hdirectives, hscans, hends⟩

end DirectiveOrder

end CSharpTidy
