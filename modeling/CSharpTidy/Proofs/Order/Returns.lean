import Mathlib.Order.MinMax
import CSharpTidy.Proofs.Format.Returns
import CSharpTidy.Proofs.Order.Commute

/-!
# The order of directives in texts with other line ends

The rule sees directives by their names and places, and scans what stands between them. With carriage
returns in front of the line feeds the places move, and the preprocessor lines stand between the same
directives. So where no name holds a line feed the rule finds the same scopes out of order, and its edits
are those for the text without, moved along.
-/

namespace CSharpTidy

open List (Forall₂)

/-- A span that begins and ends between characters. -/
def Span.Bounded (text : Text) (span : Span) : Prop :=
  text.isBoundary span.start = true ∧ text.isBoundary span.stop = true

/-- A directive of a scope, moved to where it stands when its text gets carriage returns. -/
def ScopeDirective.crlf (text : Text) (directive : ScopeDirective) : ScopeDirective :=
  { directive with
    sortKey := Text.crlf directive.sortKey
    span := directive.span.crlf text }

def Finding.crlf (text : Text) (finding : Finding) : Finding :=
  { finding with span := finding.span.crlf text }

namespace Span

variable {text : Text} {first second : Span}

theorem crlf_inj (h : first.Bounded text) (h' : second.Bounded text) :
    first.crlf text = second.crlf text ↔ first = second := by
  obtain ⟨start, stop⟩ := first
  obtain ⟨start', stop'⟩ := second
  rw [crlf, crlf, Span.mk.injEq, Span.mk.injEq, Text.crlfOffset_inj h.1 h'.1,
    Text.crlfOffset_inj h.2 h'.2]

theorem slice_crlf (h : first.Bounded text) :
    (first.crlf text).slice (Text.crlf text) = Text.crlf (first.slice text) := Text.slice_crlf h.1 h.2

theorem cover_crlf (text : Text) (first second : Span) :
    (first.crlf text).cover (second.crlf text) = (first.cover second).crlf text := by
  have hmono : Monotone (Text.crlfOffset text) := fun _ _ => Text.crlfOffset_mono text
  rw [cover, cover, crlf, crlf, crlf, hmono.map_min, hmono.map_max]

end Span

namespace DirectiveOrder

variable {policy : OrderPolicy} {text : Text} {late : List Text} {tree tree' : Tree}
  {found found' : List Token} {directive directive' : Directive} {source source' : ScopeDirective}
  {slots slots' sources sources' : List ScopeDirective} {start stop : Nat}

/-! ## Where directives have moved -/

/-- A directive as the rule sees it in a text, and in the text with carriage returns. -/
structure Returned (text : Text) (source source' : ScopeDirective) : Prop where
  eq : source' = source.crlf text
  bounded : source.span.Bounded text
  name : '\n' ∉ source.sortKey

theorem returned_of_moved
    (h : Directive.Moved (Token.Returned text) (directive.reword Text.crlfChar) directive')
    (hname : '\n' ∉ directive.name) :
    Returned text (.ofDirective directive) (.ofDirective directive') := by
  obtain ⟨first, first', last, last', hfirst, hlast, hwhole, hspan'⟩ := h.span
  have hspan : directive.span = ⟨first.start, last.stop⟩ := hwhole
  have hstart : first'.start = Text.crlfOffset text first.start := congrArg Span.start hfirst.span
  have hstop : last'.stop = Text.crlfOffset text last.stop := congrArg Span.stop hlast.span
  have halias : directive'.isAlias = directive.isAlias := by
    rw [Directive.isAlias, ← h.kind, Directive.isAlias, Directive.reword]
    cases directive.kind <;> rfl
  refine ⟨?_, ?_, hname⟩
  · rw [ScopeDirective.ofDirective, ← h.name, ← h.isGlobal, halias, hspan', hstart, hstop,
      ScopeDirective.ofDirective, ScopeDirective.crlf, Span.crlf, hspan]
    rfl
  · rw [ScopeDirective.ofDirective, hspan]
    exact ⟨hfirst.boundary.1, hlast.boundary.2⟩

theorem Returned.same (h : Returned text source source') : OrderPolicy.Same source source' := by
  rw [h.eq]
  exact ⟨(Text.crlf_eq_self h.name).symm, rfl⟩

theorem eq_map_of_returned (h : Forall₂ (Returned text) slots slots') :
    slots' = slots.map (ScopeDirective.crlf text) := by
  have hmap := Read.map_eq_of_forall₂ (g := id) (h.imp fun _ _ hsource => hsource.eq)
  rwa [List.map_id] at hmap

theorem splits_returned (h : Forall₂ (Token.Returned text) found found')
    (hstart : text.isBoundary start = true) (hstop : text.isBoundary stop = true) :
    Token.splits found' (Text.crlfOffset text start) (Text.crlfOffset text stop) =
      Token.splits found start stop := by
  unfold Token.splits
  induction h with
  | nil => rfl
  | @cons token token' found found' htoken _ ih =>
      have hbegin : token'.start = Text.crlfOffset text token.start := congrArg Span.start htoken.span
      have hend : token'.stop = Text.crlfOffset text token.stop := congrArg Span.stop htoken.span
      rw [List.any_cons, List.any_cons, ih, ← htoken.kind, hbegin, hend,
        decide_eq_decide.mpr (Text.crlfOffset_le_iff hstart htoken.boundary.1),
        decide_eq_decide.mpr (Text.crlfOffset_le_iff htoken.boundary.2 hstop)]

theorem forall₂_blocks
    (h : Forall₂ (Forall₂ (Directive.Moved (Token.Returned text))) (tree.reword Text.crlfChar).blocks
      tree'.blocks) (hnames : ∀ block ∈ tree.blocks, ∀ directive ∈ block, '\n' ∉ directive.name) :
    Forall₂ (Forall₂ fun directive directive' =>
      Returned text (.ofDirective directive) (.ofDirective directive')) tree.blocks tree'.blocks := by
  rw [Tree.reword, Tree.blocks_redraw, List.forall₂_map_left_iff] at h
  refine ((List.forall₂_and_left _ _).mpr ⟨hnames, h⟩).imp fun block block' hblock => ?_
  obtain ⟨hblockNames, hmoved⟩ := hblock
  rw [List.forall₂_map_left_iff] at hmoved
  refine ((List.forall₂_and_left _ _).mpr ⟨hblockNames, hmoved⟩).imp fun directive directive' hboth => ?_
  exact returned_of_moved hboth.2 hboth.1

/-- A scope, and one with its directives moved. -/
def ReturnedScope (text : Text) (scope scope' : Scope) : Prop :=
  Forall₂ (Returned text) scope.directives scope'.directives

theorem forall₂_scopes
    (h : Forall₂ (Forall₂ fun directive directive' =>
      Returned text (.ofDirective directive) (.ofDirective directive')) tree.blocks tree'.blocks) :
    Forall₂ (ReturnedScope text) tree.scopes tree'.scopes := by
  have hscopes : Forall₂ (Forall₂ (Returned text)) (tree.scopes.map Scope.directives)
      (tree'.scopes.map Scope.directives) := by
    rw [tree.scopes_map_directives, tree'.scopes_map_directives, List.forall₂_map_left_iff,
      List.forall₂_map_right_iff]
    refine h.imp fun block block' hblock => ?_
    rwa [List.forall₂_map_left_iff, List.forall₂_map_right_iff]
  rwa [List.forall₂_map_left_iff, List.forall₂_map_right_iff] at hscopes

theorem splitAlike_returned (hread : CSharp.read text = (late, .ok tree))
    (hread' : CSharp.read (Text.crlf text) = (late.map Text.crlf, .ok tree'))
    (hfound : tokenize text = .ok found) (hfound' : tokenize (Text.crlf text) = .ok found')
    (htokens : Forall₂ (Token.Returned text) found found')
    (h : Forall₂ (Forall₂ fun directive directive' =>
      Returned text (.ofDirective directive) (.ofDirective directive')) tree.blocks tree'.blocks) :
    Forall₂ (fun block block' => SplitAlike text (Text.crlf text)
      (block.map ScopeDirective.ofDirective) (block'.map ScopeDirective.ofDirective))
        tree.blocks tree'.blocks := by
  refine splitAlike_of_read hread hread' hfound hfound' ?_ h
  intro first first' second second' hfirst hsecond
  have hstop : first'.span.stop = Text.crlfOffset text first.span.stop :=
    congrArg (fun source : ScopeDirective => source.span.stop) hfirst.eq
  have hstart : second'.span.start = Text.crlfOffset text second.span.start :=
    congrArg (fun source : ScopeDirective => source.span.start) hsecond.eq
  rw [hstop, hstart]
  exact (splits_returned htokens hfirst.bounded.2 hsecond.bounded.1).symm

/-! ## What the rule finds -/

theorem block?_returned {scope scope' : Scope} (h : ReturnedScope text scope scope') :
    scope'.block? = scope.block?.map (Span.crlf text) := by
  rw [Scope.block?, Scope.block?, eq_map_of_returned h, List.head?_map, List.getLast?_map]
  cases scope.directives.head? with
  | none => rfl
  | some first =>
      cases scope.directives.getLast? with
      | none => rfl
      | some last => exact congrArg some (Span.cover_crlf text first.span last.span)

theorem disordered_returned (policy : OrderPolicy)
    (h : Forall₂ (ReturnedScope text) tree.scopes tree'.scopes) :
    Forall₂ (ReturnedScope text) (disordered policy tree) (disordered policy tree') := by
  refine List.rel_filter (fun scope scope' hscope => ?_) h
  change (!policy.isSorted scope.directives) = true ↔ (!policy.isSorted scope'.directives) = true
  rw [OrderPolicy.isSorted_same (hscope.imp fun _ _ => Returned.same)]

/-- **The rule finds the same scopes.** -/
theorem findings_returned (policy : OrderPolicy) (document : DocumentId)
    (h : Forall₂ (ReturnedScope text) tree.scopes tree'.scopes) :
    findings policy document tree' = (findings policy document tree).map (Finding.crlf text) := by
  have hscopes := disordered_returned policy h
  unfold findings
  generalize disordered policy tree = scopes at hscopes ⊢
  generalize disordered policy tree' = scopes' at hscopes ⊢
  induction hscopes with
  | nil => rfl
  | @cons scope scope' scopes scopes' hscope _ ih =>
      rw [List.filterMap_cons, List.filterMap_cons, block?_returned hscope, ih]
      cases scope.block? <;> rfl

/-! ## What the fix does -/

theorem swaps_returned (hslots : Forall₂ (Returned text) slots slots')
    (hsources : Forall₂ (Returned text) sources sources') :
    swaps (Text.crlf text) slots' sources' = (swaps text slots sources).map (Edit.crlf text) := by
  induction hslots generalizing sources sources' with
  | nil => rfl
  | @cons slot slot' slots slots' hslot _ ih =>
      cases hsources with
      | nil => simp [swaps]
      | @cons source source' sources sources' hsource hrest =>
          have hspan : slot'.span = source'.span ↔ slot.span = source.span := by
            rw [hslot.eq, hsource.eq]
            exact Span.crlf_inj hslot.bounded hsource.bounded
          have hslice : source'.span.slice (Text.crlf text) = Text.crlf (source.span.slice text) := by
            rw [hsource.eq]
            exact Span.slice_crlf hsource.bounded
          rw [swaps_cons, swaps_cons, ih hrest, hslice]
          by_cases hsame : slot.span = source.span
          · rw [if_pos hsame, if_pos (hspan.mpr hsame)]
          · rw [if_neg hsame, if_neg (mt hspan.mp hsame), hslot.eq]
            rfl

/-- **The fix moves along.** -/
theorem edits_returned (policy : OrderPolicy)
    (hsplit : Forall₂ (fun block block' => SplitAlike text (Text.crlf text)
      (block.map ScopeDirective.ofDirective) (block'.map ScopeDirective.ofDirective)) tree.blocks tree'.blocks)
    (h : Forall₂ (Forall₂ fun directive directive' =>
      Returned text (.ofDirective directive) (.ofDirective directive')) tree.blocks tree'.blocks) :
    edits policy (Text.crlf text) tree' = (edits policy text tree).map (Edit.crlf text) := by
  have hall : Forall₂ (Returned text) (tree.blocks.flatten.map ScopeDirective.ofDirective)
      (tree'.blocks.flatten.map ScopeDirective.ofDirective) := by
    rw [List.forall₂_map_left_iff, List.forall₂_map_right_iff]
    exact List.rel_flatten h
  rw [edits_eq_swaps, edits_eq_swaps]
  exact swaps_returned hall (forall₂_arrangedAll (fun _ _ => Returned.same) hsplit hall)

/-- **Sorting keeps the line ends of a text.** -/
theorem exists_sorted_crlf (hread : CSharp.read text = (late, .ok tree)) (hreturn : '\r' ∉ text)
    (hlines : text.KeepsLines) (hnames : ∀ directive ∈ tree.allDirectives, '\n' ∉ directive.name)
    (policy : OrderPolicy) :
    ∃ tree' sorted,
      CSharp.read (Text.crlf text) = (late.map Text.crlf, .ok tree') ∧
      (∀ document, findings policy document tree' =
        (findings policy document tree).map (Finding.crlf text)) ∧
      Edit.applyAll text (edits policy text tree) = .ok sorted ∧
      edits policy (Text.crlf text) tree' = (edits policy text tree).map (Edit.crlf text) ∧
      Edit.applyAll (Text.crlf text) ((edits policy text tree).map (Edit.crlf text)) =
        .ok (Text.crlf sorted) := by
  obtain ⟨found, found', tree', hfound, hfound', htokens, hread', hmoved⟩ :=
    CSharp.exists_read_crlf hread hreturn hlines
  obtain ⟨sorted, _, _, _, _, _, hfixed⟩ := exists_fixed hread policy
  have hblocks := forall₂_blocks hmoved fun block hblock directive hmem =>
    hnames directive (mem_allDirectives.mpr ⟨block, hblock, hmem⟩)
  have hsplit := splitAlike_returned hread hread' hfound hfound' htokens hblocks
  have hturns := hfixed.turns.crlf Text.size_nil (List.nil_append text).symm
  exact ⟨tree', sorted, hread', fun document => findings_returned policy document (forall₂_scopes hblocks),
    hfixed.turns.applyAll_eq, edits_returned policy hsplit hblocks, hturns.applyAll_eq⟩

/-! ## The outcome -/

/-- **Line ends do not change the outcome.** Let a text with line feeds and without carriage returns have
no literal of one line that goes on behind a line feed. With carriage returns in front of its line feeds it
has a tree just where it has one without. It is formatted as the text without, and where no directive
imports a name with a line feed in it the rule finds the same scopes, and the fix does the same. -/
theorem line_ends_keep_outcome (hfeed : '\n' ∈ text) (hreturn : '\r' ∉ text) (hlines : text.KeepsLines)
    (id : DocumentId) (path : Path) (policy : OrderPolicy) (options : FormatSettings) :
    ((CSharp.tree? text).isSome ↔ (CSharp.tree? (Text.crlf text)).isSome) ∧
    ∀ tree, (Document.parse CSharp.reader id path text).1.root = .ok tree →
      (∃ formats formatted formats',
        spacingFormatter (Document.parse CSharp.reader id path text).1 options = .ok formats ∧
        Edit.applyAll text formats = .ok formatted ∧
        spacingFormatter (Document.parse CSharp.reader id path (Text.crlf text)).1 options =
          .ok formats' ∧
        Edit.applyAll (Text.crlf text) formats' = .ok (Text.crlf formatted)) ∧
      ((∀ directive ∈ tree.allDirectives, '\n' ∉ directive.name) →
        ∃ found fixes sorted,
          (rule policy).evaluate (Document.parse CSharp.reader id path text).1 = .ok found ∧
          (rule policy).evaluate (Document.parse CSharp.reader id path (Text.crlf text)).1 =
            .ok (found.map (Finding.crlf text)) ∧
          (rule policy).fix (Document.parse CSharp.reader id path text).1 = .ok fixes ∧
          Edit.applyAll text fixes = .ok sorted ∧
          (rule policy).fix (Document.parse CSharp.reader id path (Text.crlf text)).1 =
            .ok (fixes.map (Edit.crlf text)) ∧
          Edit.applyAll (Text.crlf text) (fixes.map (Edit.crlf text)) = .ok (Text.crlf sorted)) := by
  refine ⟨(CSharp.isSome_tree?_crlf_iff hreturn hlines).symm, fun tree hroot => ?_⟩
  obtain ⟨late, hread⟩ := Document.root_parse_eq_ok_iff.mp hroot
  refine ⟨Spacing.exists_formatted_crlf hread hfeed hreturn hlines id path options, fun hnames => ?_⟩
  obtain ⟨tree', sorted, hread', hfindings, hsorted, hedits, hsorted'⟩ :=
    exists_sorted_crlf hread hreturn hlines hnames policy
  rw [Document.parse_eq hread, Document.parse_eq hread']
  exact ⟨_, _, sorted, rfl, congrArg Except.ok (hfindings id), rfl, hsorted,
    congrArg Except.ok hedits, hsorted'⟩

/-- Directives out of order with blanks behind them, in front of a verbatim string that goes over two
lines. -/
theorem line_ends_keep_outcome_of_verbatim :
    ∃ (text : Text) (tree : Tree) (formats : List Edit) (formatted : Text) (formats' : List Edit)
      (found : List Finding) (fixes : List Edit) (sorted : Text),
      text = "using B; \nusing A;\n// \nclass C \x7b string s = @\"a \n\"; \x7d".toList ∧
      '\n' ∈ text ∧ '\r' ∉ text ∧ text.KeepsLines ∧
      ((CSharp.tree? text).isSome ↔ (CSharp.tree? (Text.crlf text)).isSome) ∧
      (Document.parse CSharp.reader ⟨0⟩ ⟨"a.cs"⟩ text).1.root = .ok tree ∧
      (∀ directive ∈ tree.allDirectives, '\n' ∉ directive.name) ∧
      (spacingFormatter (Document.parse CSharp.reader ⟨0⟩ ⟨"a.cs"⟩ text).1
          { insertFinalNewline := true } = .ok formats ∧
        Edit.applyAll text formats = .ok formatted ∧
        spacingFormatter (Document.parse CSharp.reader ⟨0⟩ ⟨"a.cs"⟩ (Text.crlf text)).1
          { insertFinalNewline := true } = .ok formats' ∧
        Edit.applyAll (Text.crlf text) formats' = .ok (Text.crlf formatted)) ∧
      (rule .alphabetical).evaluate (Document.parse CSharp.reader ⟨0⟩ ⟨"a.cs"⟩ text).1 = .ok found ∧
      (rule .alphabetical).evaluate (Document.parse CSharp.reader ⟨0⟩ ⟨"a.cs"⟩ (Text.crlf text)).1 =
        .ok (found.map (Finding.crlf text)) ∧
      (rule .alphabetical).fix (Document.parse CSharp.reader ⟨0⟩ ⟨"a.cs"⟩ text).1 = .ok fixes ∧
      Edit.applyAll text fixes = .ok sorted ∧
      (rule .alphabetical).fix (Document.parse CSharp.reader ⟨0⟩ ⟨"a.cs"⟩ (Text.crlf text)).1 =
        .ok (fixes.map (Edit.crlf text)) ∧
      Edit.applyAll (Text.crlf text) (fixes.map (Edit.crlf text)) = .ok (Text.crlf sorted) := by
  obtain ⟨text, htext⟩ :
      ∃ text, text = "using B; \nusing A;\n// \nclass C \x7b string s = @\"a \n\"; \x7d".toList := ⟨_, rfl⟩
  have hfeed : '\n' ∈ text := by
    rw [htext]
    decide
  have hreturn : '\r' ∉ text := by
    rw [htext]
    decide
  have hlines : Text.KeepsLines text := by
    rw [htext]
    decide +kernel
  obtain ⟨tree, htree⟩ : ∃ tree, CSharp.tree? text = some tree := by
    rw [← Option.isSome_iff_exists, htext]
    decide +kernel
  have hcheck : (CSharp.tree? text).all (fun tree => tree.namespaces.isEmpty &&
      tree.directives.all fun directive => !directive.name.contains '\n') = true := by
    rw [htext]
    decide +kernel
  rw [htree, Option.all_some, Bool.and_eq_true, List.all_eq_true] at hcheck
  have hnames : ∀ directive ∈ tree.allDirectives, '\n' ∉ directive.name := by
    intro directive hmem
    obtain ⟨block, hblock, hmem⟩ := mem_allDirectives.mp hmem
    rw [Tree.blocks_of_isEmpty hcheck.1, List.mem_singleton] at hblock
    rw [hblock] at hmem
    simpa using hcheck.2 directive hmem
  have hroot := Document.root_parse_of_tree? htree ⟨0⟩ ⟨"a.cs"⟩
  obtain ⟨hsome, hkeep⟩ := line_ends_keep_outcome hfeed hreturn hlines ⟨0⟩ ⟨"a.cs"⟩ .alphabetical
    { insertFinalNewline := true }
  obtain ⟨⟨formats, formatted, formats', hformat⟩, hfix⟩ := hkeep tree hroot
  obtain ⟨found, fixes, sorted, hfixed⟩ := hfix hnames
  exact ⟨text, tree, formats, formatted, formats', found, fixes, sorted, htext, hfeed, hreturn, hlines,
    hsome, hroot, hnames, hformat, hfixed⟩

/-- Behind a backslash a line feed goes on with a string, but a carriage return and a line feed do not. And
the order compares the line feeds and carriage returns in a name. -/
theorem line_ends_change_outcome :
    ((CSharp.tree? "class C \x7b string s = \"\\\n\"; \x7d".toList).isSome ∧
      CSharp.tree? (Text.crlf "class C \x7b string s = \"\\\n\"; \x7d".toList) = none) ∧
    ∃ text tree tree', text = "using @\"\n\";\nusing @\"\x0b\";\n".toList ∧
      '\n' ∈ text ∧ '\r' ∉ text ∧ CSharp.tree? text = some tree ∧
      CSharp.tree? (Text.crlf text) = some tree' ∧
      findings .alphabetical ⟨0⟩ tree = [] ∧ findings .alphabetical ⟨0⟩ tree' ≠ [] := by
  refine ⟨by decide +kernel, ?_⟩
  obtain ⟨text, htext⟩ : ∃ text, text = "using @\"\n\";\nusing @\"\x0b\";\n".toList := ⟨_, rfl⟩
  obtain ⟨tree, htree⟩ : ∃ tree, CSharp.tree? text = some tree := by
    rw [← Option.isSome_iff_exists, htext]
    decide +kernel
  obtain ⟨tree', htree'⟩ : ∃ tree', CSharp.tree? (Text.crlf text) = some tree' := by
    rw [← Option.isSome_iff_exists, htext]
    decide +kernel
  have hsorted : (CSharp.tree? text).all (fun tree => tree.namespaces.isEmpty &&
      OrderPolicy.alphabetical.isSorted tree.fileScope.directives) = true := by
    rw [htext]
    decide +kernel
  have hunsorted : (CSharp.tree? (Text.crlf text)).all (fun tree => tree.namespaces.isEmpty &&
      (!OrderPolicy.alphabetical.isSorted tree.fileScope.directives && tree.fileScope.block?.isSome)) =
        true := by
    rw [htext]
    decide +kernel
  rw [htree, Option.all_some, Bool.and_eq_true] at hsorted
  rw [htree', Option.all_some, Bool.and_eq_true, Bool.and_eq_true] at hunsorted
  refine ⟨text, tree, tree', htext, ?_, ?_, htree, htree', ?_, ?_⟩
  · rw [htext]
    decide
  · rw [htext]
    decide
  · rw [findings, disordered, Tree.scopes_of_isEmpty hsorted.1]
    simp [hsorted.2]
  · obtain ⟨block, hblock⟩ := Option.isSome_iff_exists.mp hunsorted.2.2
    rw [findings, disordered, Tree.scopes_of_isEmpty hunsorted.1]
    simp [hunsorted.2.1, hblock]

end DirectiveOrder

end CSharpTidy
