import Mathlib.Data.List.Forall2
import CSharpTidy.Proofs.Order.Fix
import CSharpTidy.Proofs.Tree.Document
import CSharpTidy.Proofs.Tree.Shift

/-!
# The order of directives behind a byte-order mark

The rule goes by the names of directives and by the text between them. In a text with one more character in
front both stay, and only the places move. So a byte-order mark moves what a text declares, what the rule
finds in it and what the fix replaces, and changes nothing else.
-/

namespace CSharpTidy

open List (Forall₂)

def ScopeDirective.shift (distance : Nat) (directive : ScopeDirective) : ScopeDirective :=
  { directive with span := directive.span.shift distance }

def Finding.shift (distance : Nat) (finding : Finding) : Finding :=
  { finding with span := finding.span.shift distance }

def Edit.shift (distance : Nat) (edit : Edit) : Edit := ⟨edit.span.shift distance, edit.replacement⟩

theorem Span.shift_inj {distance : Nat} {first second : Span} :
    first.shift distance = second.shift distance ↔ first = second := by
  obtain ⟨start, stop⟩ := first
  obtain ⟨start', stop'⟩ := second
  simp only [shift, mk.injEq, Nat.add_right_cancel_iff]

theorem Text.slice_cons (c : Char) (text : Text) (start stop : Nat) :
    slice (c :: text) (start + c.utf8Size) (stop + c.utf8Size) = slice text start stop := by
  rw [slice, slice, dropBytes, if_pos (Nat.le_add_left ..), Nat.add_sub_cancel, Nat.add_sub_add_right]

namespace Edit

variable {distance offset : Nat} {edits : List Edit} {text text' : Text}

theorem Turns.shift (distance : Nat) (h : Turns offset edits text text') :
    Turns (offset + distance) (edits.map (Edit.shift distance)) text text' := by
  induction h with
  | done text => exact .done text
  | kept kept _ ih => exact .kept kept (Nat.add_right_comm .. ▸ ih)
  | @replaced offset edit edits part text text' hspan hne _ ih =>
      have hspan' : (edit.shift distance).span =
          ⟨offset + distance, offset + distance + part.size⟩ := by
        rw [Edit.shift, hspan, Span.shift, Nat.add_right_comm]
      exact .replaced hspan' hne (Nat.add_right_comm .. ▸ ih)

theorem Turns.applyAll_cons (h : Turns 0 edits text text') (c : Char) :
    applyAll (c :: text) (edits.map (Edit.shift c.utf8Size)) = .ok (c :: text') := by
  have hkept : Turns 0 (edits.map (Edit.shift c.utf8Size)) ([c] ++ text) ([c] ++ text') :=
    .kept [c] (by simpa using h.shift c.utf8Size)
  exact hkept.applyAll_eq

end Edit

namespace DirectiveOrder

variable {policy : OrderPolicy} {text : Text} {late : List Text} {tree : Tree} {distance : Nat}
  {scope scope' : Scope}

theorem forall₂_same_shift (distance : Nat) (directives : List ScopeDirective) :
    Forall₂ OrderPolicy.Same directives (directives.map (ScopeDirective.shift distance)) :=
  List.forall₂_map_right_iff.mpr (List.forall₂_same.mpr fun _ _ => ⟨rfl, rfl⟩)

/-! ## Scopes -/

/-- A scope, and one with the same directives further on. -/
def Shifted (distance : Nat) (scope scope' : Scope) : Prop :=
  scope'.directives = scope.directives.map (ScopeDirective.shift distance)

theorem blocks_shift (distance : Nat) (tree : Tree) :
    (tree.shift distance).blocks = tree.blocks.map (List.map (Directive.shift distance)) :=
  tree.blocks_redraw _ _

theorem forall₂_scopes_shift (distance : Nat) (tree : Tree) :
    Forall₂ (Shifted distance) tree.scopes (tree.shift distance).scopes := by
  have hdirectives : (tree.shift distance).scopes.map Scope.directives =
      tree.scopes.map fun scope => scope.directives.map (ScopeDirective.shift distance) := by
    calc (tree.shift distance).scopes.map Scope.directives
        = tree.blocks.map (List.map ScopeDirective.ofDirective ∘ List.map (Directive.shift distance)) := by
          rw [Tree.scopes_map_directives, blocks_shift, List.map_map]
      _ = (tree.scopes.map Scope.directives).map (List.map (ScopeDirective.shift distance)) := by
          rw [Tree.scopes_map_directives, List.map_map]
          refine List.map_congr_left fun block _ => ?_
          simp only [Function.comp_apply, List.map_map]
          rfl
      _ = tree.scopes.map fun scope => scope.directives.map (ScopeDirective.shift distance) :=
          List.map_map
  have hall := List.forall₂_eq_eq_eq.symm ▸ hdirectives
  rw [List.forall₂_map_left_iff, List.forall₂_map_right_iff] at hall
  exact hall.flip

theorem disordered_shift (policy : OrderPolicy) (distance : Nat) (tree : Tree) :
    Forall₂ (Shifted distance) (disordered policy tree) (disordered policy (tree.shift distance)) := by
  refine List.rel_filter (fun scope scope' hscope => ?_) (forall₂_scopes_shift distance tree)
  change (!policy.isSorted scope.directives) = true ↔ (!policy.isSorted scope'.directives) = true
  rw [hscope, OrderPolicy.isSorted_same (forall₂_same_shift distance scope.directives)]

/-! ## What the rule finds -/

theorem block?_shift (h : Shifted distance scope scope') :
    scope'.block? = scope.block?.map (Span.shift distance) := by
  rw [Scope.block?, Scope.block?, h, List.head?_map, List.getLast?_map]
  cases scope.directives.head? with
  | none => rfl
  | some first =>
      cases scope.directives.getLast? with
      | none => rfl
      | some last => exact congrArg some (Span.cover_shift distance first.span last.span)

theorem findings_shift (policy : OrderPolicy) (document : DocumentId) (distance : Nat) (tree : Tree) :
    findings policy document (tree.shift distance) =
      (findings policy document tree).map (Finding.shift distance) := by
  have hscopes := disordered_shift policy distance tree
  unfold findings
  generalize disordered policy tree = scopes at hscopes ⊢
  generalize disordered policy (tree.shift distance) = scopes' at hscopes ⊢
  induction hscopes with
  | nil => rfl
  | @cons scope scope' scopes scopes' hscope _ ih =>
      rw [List.filterMap_cons, List.filterMap_cons, block?_shift hscope, ih]
      cases scope.block? <;> rfl

/-! ## What the fix does -/

theorem isSplit_cons (c : Char) (text : Text) (first second : ScopeDirective) :
    isSplit (c :: text) (first.shift c.utf8Size) (second.shift c.utf8Size) =
      isSplit text first second := by
  have hgap : Text.slice (c :: text) (first.shift c.utf8Size).span.stop
      (second.shift c.utf8Size).span.start = Text.slice text first.span.stop second.span.start :=
    Text.slice_cons c text _ _
  rw [isSplit, hgap, isSplit]

theorem regions_cons (c : Char) (text : Text) (directives : List ScopeDirective) :
    regions (c :: text) (directives.map (ScopeDirective.shift c.utf8Size)) =
      (regions text directives).map (List.map (ScopeDirective.shift c.utf8Size)) := by
  fun_induction regions text directives with
  | case1 => rfl
  | case2 directive => rfl
  | case3 first second rest hnone ih =>
      rw [hnone] at ih
      rw [List.map_cons, List.map_cons, regions, ← List.map_cons, ih]
      rfl
  | case4 first second rest region others hregions hsplit ih =>
      rw [hregions] at ih
      rw [List.map_cons, List.map_cons, regions, ← List.map_cons, ih, List.map_cons]
      simp only [isSplit_cons, hsplit]
      rfl
  | case5 first second rest region others hregions hsplit ih =>
      rw [hregions] at ih
      rw [List.map_cons, List.map_cons, regions, ← List.map_cons, ih, List.map_cons]
      simp only [isSplit_cons, hsplit]
      rfl

theorem regionEdits_cons (policy : OrderPolicy) (c : Char) (text : Text) (region : List ScopeDirective) :
    regionEdits policy (c :: text) (region.map (ScopeDirective.shift c.utf8Size)) =
      (regionEdits policy text region).map (Edit.shift c.utf8Size) := by
  have hsort : (region.map (ScopeDirective.shift c.utf8Size)).mergeSort policy.sortsBefore =
      (region.mergeSort policy.sortsBefore).map (ScopeDirective.shift c.utf8Size) :=
    (List.map_mergeSort (f := ScopeDirective.shift c.utf8Size) fun _ _ _ _ => rfl).symm
  rw [regionEdits, regionEdits, hsort, List.zip_map, List.filterMap_map, List.map_filterMap]
  refine List.filterMap_congr fun ⟨slot, source⟩ _ => ?_
  have hspan : (slot.shift c.utf8Size).span = (source.shift c.utf8Size).span ↔ slot.span = source.span :=
    Span.shift_inj
  have hslice : (source.shift c.utf8Size).span.slice (c :: text) = source.span.slice text :=
    Text.slice_cons c text _ _
  change (if (slot.shift c.utf8Size).span = (source.shift c.utf8Size).span then none
    else some _) = Option.map _ (if slot.span = source.span then none else some _)
  by_cases hsame : slot.span = source.span
  · rw [if_pos hsame, if_pos (hspan.mpr hsame)]
    rfl
  · rw [if_neg hsame, if_neg (mt hspan.mp hsame), hslice]
    rfl

/-- **The fix moves along.** -/
theorem edits_cons (policy : OrderPolicy) (c : Char) (text : Text) (tree : Tree) :
    edits policy (c :: text) (tree.shift c.utf8Size) =
      (edits policy text tree).map (Edit.shift c.utf8Size) := by
  have hscopes := disordered_shift policy c.utf8Size tree
  unfold edits
  generalize disordered policy tree = scopes at hscopes ⊢
  generalize disordered policy (tree.shift c.utf8Size) = scopes' at hscopes ⊢
  induction hscopes with
  | nil => rfl
  | @cons scope scope' scopes scopes' hscope _ ih =>
      have hedits : scopeEdits policy (c :: text) scope' =
          (scopeEdits policy text scope).map (Edit.shift c.utf8Size) := by
        rw [scopeEdits, hscope, regions_cons, List.flatMap_map, scopeEdits, List.map_flatMap]
        exact List.flatMap_congr fun region _ => regionEdits_cons policy c text region
      rw [List.flatMap_cons, List.flatMap_cons, hedits, ih, List.map_append]

/-! ## The mark -/

/-- **A byte-order mark only shifts.** Let a text not begin with the mark. With the mark in front its tokens,
or its scan error, stand three bytes further on, and so do its declarations, or its syntax error; names,
kinds, nesting and late directives stay. It has a tree just where it has one without. Where it has one, the
rule finds the same scopes three bytes further on, and the fixed text is the mark and the text fixed
without. -/
theorem byteOrderMark_only_shifts (h : text.head? ≠ some byteOrderMark) (id : DocumentId) (path : Path)
    (policy : OrderPolicy) :
    tokenize (byteOrderMark :: text) = Scan.shift 3 (tokenize text) ∧
    CSharp.read (byteOrderMark :: text) = ((CSharp.read text).1, CSharp.shift 3 (CSharp.read text).2) ∧
    CSharp.tree? (byteOrderMark :: text) = (CSharp.tree? text).map (Tree.shift 3) ∧
    ∀ tree, (Document.parse CSharp.reader id path text).1.root = .ok tree →
      (Document.parse CSharp.reader id path (byteOrderMark :: text)).1.root = .ok (tree.shift 3) ∧
      ∃ found fixes fixed,
        (rule policy).evaluate (Document.parse CSharp.reader id path text).1 = .ok found ∧
        (rule policy).evaluate (Document.parse CSharp.reader id path (byteOrderMark :: text)).1 =
          .ok (found.map (Finding.shift 3)) ∧
        (rule policy).fix (Document.parse CSharp.reader id path text).1 = .ok fixes ∧
        Edit.applyAll text fixes = .ok fixed ∧
        (rule policy).fix (Document.parse CSharp.reader id path (byteOrderMark :: text)).1 =
          .ok (fixes.map (Edit.shift 3)) ∧
        Edit.applyAll (byteOrderMark :: text) (fixes.map (Edit.shift 3)) =
          .ok (byteOrderMark :: fixed) := by
  have hread := CSharp.read_byteOrderMark h
  refine ⟨tokenize_byteOrderMark h, hread, ?_, fun tree hroot => ?_⟩
  · rw [CSharp.tree?, hread, CSharp.tree?]
    cases (CSharp.read text).2 <;> rfl
  obtain ⟨late, hplain⟩ := Document.root_parse_eq_ok_iff.mp hroot
  rw [hplain] at hread
  obtain ⟨fixed, _, _, _, _, _, hfixed⟩ := exists_fixed hplain policy
  rw [Document.parse_eq hplain, Document.parse_eq hread]
  exact ⟨rfl, _, _, fixed, rfl, congrArg Except.ok (findings_shift policy id 3 tree), rfl,
    hfixed.turns.applyAll_eq, congrArg Except.ok (edits_cons policy byteOrderMark text tree),
    hfixed.turns.applyAll_cons byteOrderMark⟩

/-- Directives out of order in a file and in a namespace, with a preprocessor line between two of them. -/
theorem byteOrderMark_only_shifts_of_nested :
    ∃ (text : Text) (tree : Tree) (found : List Finding) (fixes : List Edit) (fixed : Text),
      text = "using C;\n#if X\nusing B;\nusing A;\n#endif\nnamespace N \x7b using F; using E; \x7d".toList ∧
      text.head? ≠ some byteOrderMark ∧
      tokenize (byteOrderMark :: text) = Scan.shift 3 (tokenize text) ∧
      CSharp.read (byteOrderMark :: text) = ((CSharp.read text).1, CSharp.shift 3 (CSharp.read text).2) ∧
      CSharp.tree? (byteOrderMark :: text) = (CSharp.tree? text).map (Tree.shift 3) ∧
      (Document.parse CSharp.reader ⟨0⟩ ⟨"a.cs"⟩ text).1.root = .ok tree ∧
      (Document.parse CSharp.reader ⟨0⟩ ⟨"a.cs"⟩ (byteOrderMark :: text)).1.root =
        .ok (tree.shift 3) ∧
      (rule .alphabetical).evaluate (Document.parse CSharp.reader ⟨0⟩ ⟨"a.cs"⟩ text).1 = .ok found ∧
      (rule .alphabetical).evaluate
          (Document.parse CSharp.reader ⟨0⟩ ⟨"a.cs"⟩ (byteOrderMark :: text)).1 =
        .ok (found.map (Finding.shift 3)) ∧
      (rule .alphabetical).fix (Document.parse CSharp.reader ⟨0⟩ ⟨"a.cs"⟩ text).1 = .ok fixes ∧
      Edit.applyAll text fixes = .ok fixed ∧
      (rule .alphabetical).fix (Document.parse CSharp.reader ⟨0⟩ ⟨"a.cs"⟩ (byteOrderMark :: text)).1 =
        .ok (fixes.map (Edit.shift 3)) ∧
      Edit.applyAll (byteOrderMark :: text) (fixes.map (Edit.shift 3)) = .ok (byteOrderMark :: fixed) := by
  obtain ⟨text, htext⟩ : ∃ text, text =
      "using C;\n#if X\nusing B;\nusing A;\n#endif\nnamespace N \x7b using F; using E; \x7d".toList :=
    ⟨_, rfl⟩
  have hmark : text.head? ≠ some byteOrderMark := by
    rw [htext]
    decide
  obtain ⟨tree, htree⟩ : ∃ tree, CSharp.tree? text = some tree := by
    rw [← Option.isSome_iff_exists, htext]
    decide +kernel
  obtain ⟨htokens, hread, htrees, hrule⟩ :=
    byteOrderMark_only_shifts hmark ⟨0⟩ ⟨"a.cs"⟩ .alphabetical
  have hroot := Document.root_parse_of_tree? htree ⟨0⟩ ⟨"a.cs"⟩
  obtain ⟨hmoved, found, fixes, fixed, hfixed⟩ := hrule tree hroot
  exact ⟨text, tree, found, fixes, fixed, htext, hmark, htokens, hread, htrees, hroot, hmoved, hfixed⟩

end DirectiveOrder

end CSharpTidy
