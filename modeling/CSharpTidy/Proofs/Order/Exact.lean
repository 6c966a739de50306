import CSharpTidy.Proofs.Order.Sorted
import CSharpTidy.Proofs.Tree.Scopes

/-!
# What the rule reports

The rule looks at neighbours only, and meets the namespaces of a tree in a list of those that wait. What
it reports are just the scopes in which some directive comes before one that sorts lower. They are
reported in the order of the text, apart from each other, and each for its own directives.
-/

namespace CSharpTidy

open List (Forall₂)
open Piece (width spell)

namespace OrderPolicy

variable {policy : OrderPolicy} {directives : List ScopeDirective}

/-- Some directive comes before another, next to it or not, that sorts lower. -/
def Inverted (policy : OrderPolicy) (directives : List ScopeDirective) : Prop :=
  ∃ (i j : Nat) (first second : ScopeDirective), i < j ∧ directives[i]? = some first ∧
    directives[j]? = some second ∧ policy.compareDirectives first second = .gt

/-- Neighbours in order are enough, as the order of names is transitive. -/
theorem isSorted_iff_pairwise :
    policy.isSorted directives = true ↔
      directives.Pairwise fun first second => (policy.compareDirectives first second).isLE = true := by
  induction directives with
  | nil => simp [isSorted]
  | cons first rest ih =>
      cases rest with
      | nil => simp [isSorted]
      | cons second rest =>
          rw [isSorted, Bool.and_eq_true, ih, List.pairwise_cons (a := first)]
          refine and_congr_left fun hrest => ⟨fun hle later hmem => ?_, fun hle => ?_⟩
          · rcases List.mem_cons.mp hmem with rfl | hmem
            · exact hle
            · exact isLE_compareNames_trans hle ((List.pairwise_cons.mp hrest).1 later hmem)
          · exact hle second List.mem_cons_self

theorem inverted_iff : policy.Inverted directives ↔ policy.isSorted directives = false := by
  have hgt : ∀ first second : ScopeDirective,
      (policy.compareDirectives first second).isLE = true ↔
        policy.compareDirectives first second ≠ .gt := by
    intro first second
    cases policy.compareDirectives first second <;> decide
  rw [← Bool.not_eq_true, isSorted_iff_pairwise, List.pairwise_iff_getElem]
  simp only [hgt, not_forall, not_not]
  constructor
  · rintro ⟨i, j, first, second, hlt, hfirst, hsecond, hcompare⟩
    obtain ⟨hi, rfl⟩ := List.getElem?_eq_some_iff.mp hfirst
    obtain ⟨hj, rfl⟩ := List.getElem?_eq_some_iff.mp hsecond
    exact ⟨i, j, hi, hj, hlt, hcompare⟩
  · rintro ⟨i, j, hi, hj, hlt, hcompare⟩
    exact ⟨i, j, _, _, hlt, List.getElem?_eq_getElem hi, List.getElem?_eq_getElem hj, hcompare⟩

instance (policy : OrderPolicy) (directives : List ScopeDirective) :
    Decidable (policy.Inverted directives) :=
  decidable_of_iff _ inverted_iff.symm

end OrderPolicy

/-! ## Blocks of directives -/

namespace DirectiveOrder

variable {policy : OrderPolicy} {text text' mark : Text} {tree tree' : Tree} {chunks : List Chunk}
  {scope scope' : Scope} {scopes : List Scope} {id : DocumentId} {offset : Nat}

/-- Directives in order and apart, whose spans are parts of a text. -/
structure Stand (text : Text) (directives : List ScopeDirective) : Prop where
  cuts : ∀ directive ∈ directives, directive.span.Cuts text
  long : ∀ directive ∈ directives, directive.span.start < directive.span.stop
  apart : directives.Pairwise fun first second => first.span.stop ≤ second.span.start

theorem apart_of_holds {slots : List DirectiveSlot} {directives : List Directive}
    (h : DirectiveSlot.Holds offset slots directives) :
    directives.Pairwise fun first second => first.span.stop ≤ second.span.start := by
  induction h with
  | nil => exact .nil
  | @cons offset slot directive slots directives hspan _ hrest ih =>
      refine List.pairwise_cons.mpr ⟨fun later hmem => ?_, ih⟩
      have hbehind := (pairwise_of_holds hrest).1 later hmem
      rw [DirectiveSlot.pieces, Piece.width_append] at hbehind
      rw [hspan]
      simp only
      omega

/-- The directives of a text stand in it, scope by scope. -/
theorem stand_of_laid (h : Laid text mark chunks tree) :
    Stand text (tree.scopes.map Scope.directives).flatten := by
  have hspans : ∀ directive ∈ tree.blocks.flatten,
      directive.span.Cuts text ∧ directive.span.start < directive.span.stop := by
    intro directive hmem
    obtain ⟨front, slot, behind, hall, hslot, hspan, -⟩ := exists_body_of_holds h.holds_join hmem
    have hpieces := Chunk.join_pieces [] chunks
    rw [List.nil_append, Chunk.pieces, hall] at hpieces
    have hpos := (Chunk.forall_slots_join h.reads [] slot hslot).width_pos
    refine ⟨Span.cuts_iff.mpr ⟨mark ++ spell front, spell slot.body,
      spell (behind ++ (Chunk.join [] chunks).tail), ?_, ?_⟩, ?_⟩
    · rw [h.cut.eq, ← hpieces]
      simp
    · rw [hspan, Text.size_append]
      rfl
    · rw [hspan]
      simp only
      omega
  rw [tree.scopes_map_directives, ← List.map_flatten]
  refine ⟨?_, ?_, List.pairwise_map.mpr (apart_of_holds h.holds_join)⟩
  · exact List.forall_mem_map.mpr fun directive hmem => (hspans directive hmem).1
  · exact List.forall_mem_map.mpr fun directive hmem => (hspans directive hmem).2

namespace Stand

variable {directives : List ScopeDirective} {first last directive : ScopeDirective}

theorem head_le (h : Stand text directives) (hfirst : first ∈ directives.head?)
    (hmem : directive ∈ directives) :
    first.span.start ≤ directive.span.start ∧ first.span.stop ≤ directive.span.stop := by
  obtain ⟨others, rfl⟩ := List.head?_eq_some_iff.mp hfirst
  have hlong := h.long first List.mem_cons_self
  have hlong' := h.long directive hmem
  rcases List.mem_cons.mp hmem with rfl | hmem
  · exact ⟨Nat.le_refl _, Nat.le_refl _⟩
  · have hapart := (List.pairwise_cons.mp h.apart).1 directive hmem
    omega

theorem cover_eq (h : Stand text directives) (hfirst : first ∈ directives.head?)
    (hlast : last ∈ directives.getLast?) :
    first.span.cover last.span = ⟨first.span.start, last.span.stop⟩ := by
  obtain ⟨hstart, hstop⟩ := h.head_le hfirst (List.mem_of_mem_getLast? hlast)
  rw [Span.cover, Nat.min_eq_left hstart, Nat.max_eq_right hstop]

theorem block_cuts (h : Stand text directives) (hfirst : first ∈ directives.head?)
    (hlast : last ∈ directives.getLast?) :
    Span.Cuts text ⟨first.span.start, last.span.stop⟩ ∧ first.span.start < last.span.stop := by
  have hmem := List.mem_of_mem_head? hfirst
  have hmem' := List.mem_of_mem_getLast? hlast
  have hlong := h.long first hmem
  obtain ⟨-, hstop⟩ := h.head_le hfirst hmem'
  have hlt : first.span.start < last.span.stop := Nat.lt_of_lt_of_le hlong hstop
  exact ⟨⟨Nat.le_of_lt hlt, (h.cuts last hmem').inside, (h.cuts first hmem).start,
    (h.cuts last hmem').stop⟩, hlt⟩

end Stand

/-! ## Findings -/

/-- A finding is about a scope: it spans the directives from the first to the last. -/
def Reports (id : DocumentId) (scope : Scope) (finding : Finding) : Prop :=
  ∃ first ∈ scope.directives.head?, ∃ last ∈ scope.directives.getLast?,
    finding = ⟨ruleId, .error, ruleMessage, ⟨first.span.start, last.span.stop⟩, id, .ordering⟩

/-- Whether a scope of a document is reported. -/
def Reported (policy : OrderPolicy) (document : Document) (scope : Scope) : Prop :=
  ∃ found, (rule policy).evaluate document = .ok found ∧
    ∃ finding ∈ found, scope.block? = some finding.span

/-- The findings about scopes. -/
def reports (policy : OrderPolicy) (id : DocumentId) (scopes : List Scope) : List Finding :=
  (scopes.filter fun scope => !policy.isSorted scope.directives).filterMap fun scope =>
    scope.block?.map fun block => ⟨ruleId, .error, ruleMessage, block, id, .ordering⟩

theorem findings_eq_reports (policy : OrderPolicy) (id : DocumentId) (tree : Tree) :
    findings policy id tree = reports policy id tree.scopes := rfl

theorem evaluate_eq_reports {late : List Text} {tree : Tree} (hread : CSharp.read text = (late, .ok tree))
    (policy : OrderPolicy) (id : DocumentId) (path : Path) :
    (rule policy).evaluate (Document.parse CSharp.reader id path text).1 =
      .ok (reports policy id tree.scopes) := by
  rw [Document.parse_eq hread]
  exact congrArg Except.ok (findings_eq_reports policy id tree)

theorem reports_append (policy : OrderPolicy) (id : DocumentId) (first second : List Scope) :
    reports policy id (first ++ second) = reports policy id first ++ reports policy id second := by
  rw [reports, List.filter_append, List.filterMap_append, reports, reports]

theorem reports_singleton_length (policy : OrderPolicy) (id : DocumentId) (scope : Scope) :
    (reports policy id [scope]).length ≤ 1 :=
  Nat.le_trans (List.length_filterMap_le _ _) (List.length_filter_le _ _)

theorem block?_eq {first last : ScopeDirective} (h : Stand text scope.directives)
    (hfirst : first ∈ scope.directives.head?) (hlast : last ∈ scope.directives.getLast?) :
    scope.block? = some ⟨first.span.start, last.span.stop⟩ := by
  rw [← h.cover_eq hfirst hlast, Scope.block?, Option.mem_def.mp hfirst, Option.mem_def.mp hlast]

theorem exists_block_of_isSorted (h : Stand text scope.directives)
    (hsorted : policy.isSorted scope.directives = false) :
    ∃ first ∈ scope.directives.head?, ∃ last ∈ scope.directives.getLast?,
      scope.block? = some ⟨first.span.start, last.span.stop⟩ := by
  have hne : scope.directives ≠ [] := fun hnil => by
    rw [hnil] at hsorted
    cases hsorted
  have hfirst := List.head?_eq_some_head hne
  have hlast := List.getLast?_eq_some_getLast hne
  exact ⟨_, hfirst, _, hlast, block?_eq h hfirst hlast⟩

theorem forall₂_reports (h : ∀ scope ∈ scopes, Stand text scope.directives) :
    Forall₂ (Reports id) (scopes.filter fun scope => policy.Inverted scope.directives)
      (reports policy id scopes) := by
  induction scopes with
  | nil => exact .nil
  | cons scope scopes ih =>
      have hrest := ih fun later hmem => h later (List.mem_cons_of_mem _ hmem)
      cases hsorted : policy.isSorted scope.directives with
      | true =>
          have hkept : ¬policy.Inverted scope.directives := by
            rw [OrderPolicy.inverted_iff, hsorted]
            decide
          rw [List.filter_cons_of_neg (by simpa using hkept), reports,
            List.filter_cons_of_neg (by simp [hsorted])]
          exact hrest
      | false =>
          obtain ⟨first, hfirst, last, hlast, hblock⟩ :=
            exists_block_of_isSorted (h scope List.mem_cons_self) hsorted
          have hinverted := OrderPolicy.inverted_iff.mpr hsorted
          rw [List.filter_cons_of_pos (by simpa using hinverted), reports,
            List.filter_cons_of_pos (by simp [hsorted]), List.filterMap_cons, hblock]
          exact .cons ⟨first, hfirst, last, hlast, rfl⟩ hrest

theorem cuts_of_mem_reports {finding : Finding} (h : ∀ scope ∈ scopes, Stand text scope.directives)
    (hmem : finding ∈ reports policy id scopes) :
    finding.span.Cuts text ∧ finding.span.start < finding.span.stop := by
  obtain ⟨scope, hscope, first, hfirst, last, hlast, rfl⟩ :=
    Read.exists_of_mem_forall₂ (forall₂_reports h).flip hmem
  exact (h scope (List.mem_filter.mp hscope).1).block_cuts hfirst hlast

/-- A relation between members of a list passes to what stands for them. -/
theorem pairwise_of_forall₂ {α β : Type} {R : α → β → Prop} {S : α → α → Prop} {T : β → β → Prop}
    {items : List α} {items' : List β} (h : Forall₂ R items items') (hitems : items.Pairwise S)
    (hpass : ∀ item item' later later', R item item' → R later later' → S item later → T item' later') :
    items'.Pairwise T := by
  induction h with
  | nil => exact .nil
  | @cons item item' items items' hitem hrest ih =>
      obtain ⟨hlater, hitems⟩ := List.pairwise_cons.mp hitems
      refine List.pairwise_cons.mpr ⟨fun later' hmem => ?_, ih hitems⟩
      obtain ⟨later, hmem, hfound⟩ := Read.exists_of_mem_forall₂ hrest.flip hmem
      exact hpass item item' later later' hitem hfound (hlater later hmem)

theorem pairwise_reports (h : ∀ scope ∈ scopes, Stand text scope.directives)
    (hapart : scopes.Pairwise fun scope scope' => ∀ directive ∈ scope.directives,
      ∀ directive' ∈ scope'.directives, directive.span.stop ≤ directive'.span.start) :
    (reports policy id scopes).Pairwise fun first second => first.span.stop ≤ second.span.start := by
  refine pairwise_of_forall₂ (forall₂_reports h) (hapart.sublist List.filter_sublist) ?_
  rintro scope finding scope' finding' ⟨first, -, last, hlast, rfl⟩ ⟨first', hfirst', last', -, rfl⟩ hacross
  exact hacross last (List.mem_of_mem_getLast? hlast) first' (List.mem_of_mem_head? hfirst')

/-- The scopes of a text that is laid out hold directives that stand in it, each scope behind the one
before. -/
theorem scopes_of_laid (h : Laid text mark chunks tree) :
    (∀ scope ∈ tree.scopes, Stand text scope.directives) ∧
      tree.scopes.Pairwise fun scope scope' => ∀ directive ∈ scope.directives,
        ∀ directive' ∈ scope'.directives, directive.span.stop ≤ directive'.span.start := by
  obtain ⟨hcuts, hlong, hpairwise⟩ := stand_of_laid h
  obtain ⟨hinside, hacross⟩ := List.pairwise_flatten.mp hpairwise
  have hmem : ∀ {scope directive}, scope ∈ tree.scopes → directive ∈ scope.directives →
      directive ∈ (tree.scopes.map Scope.directives).flatten := fun hscope hdirective =>
    List.mem_flatten_of_mem (List.mem_map_of_mem hscope) hdirective
  refine ⟨fun scope hscope => ⟨fun directive hdirective => hcuts directive (hmem hscope hdirective),
    fun directive hdirective => hlong directive (hmem hscope hdirective),
    hinside _ (List.mem_map_of_mem hscope)⟩, List.pairwise_map.mp hacross⟩

theorem reported_iff {path : Path} (hread : ∃ late, CSharp.read text = (late, .ok tree))
    (hscope : scope ∈ tree.scopes) :
    Reported policy (Document.parse CSharp.reader id path text).1 scope ↔
      policy.Inverted scope.directives := by
  obtain ⟨late, hread⟩ := hread
  obtain ⟨mark, chunks, hlaid, -⟩ := exists_laid hread
  obtain ⟨hstand, -⟩ := scopes_of_laid hlaid
  have hevaluate := evaluate_eq_reports hread policy id path
  have hreports : Forall₂ (Reports id) (tree.scopes.filter fun scope =>
      policy.Inverted scope.directives) (reports policy id tree.scopes) := forall₂_reports hstand
  constructor
  · rintro ⟨found, hfound, finding, hmem, hblock⟩
    obtain rfl := Except.ok.inj (hevaluate.symm.trans hfound)
    obtain ⟨scope', hscope', first, hfirst, last, hlast, rfl⟩ :=
      Read.exists_of_mem_forall₂ hreports.flip hmem
    obtain ⟨hscope', hinverted⟩ := List.mem_filter.mp hscope'
    rw [decide_eq_true_eq] at hinverted
    have hblock' := block?_eq (hstand scope' hscope') hfirst hlast
    rwa [directives_eq_of_block? hlaid hscope hscope' hblock hblock']
  · intro hinverted
    obtain ⟨finding, hmem, first, hfirst, last, hlast, rfl⟩ :=
      Read.exists_of_mem_forall₂ hreports (List.mem_filter.mpr ⟨hscope, by simpa using hinverted⟩)
    exact ⟨_, hevaluate, _, hmem, block?_eq (hstand scope hscope) hfirst hlast⟩

theorem inverted_iff_of_names {directives directives' : List ScopeDirective}
    (h : directives.map ScopeDirective.sortKey = directives'.map ScopeDirective.sortKey) :
    policy.Inverted directives ↔ policy.Inverted directives' := by
  have hsorted : ∀ directives : List ScopeDirective, policy.isSorted directives = true ↔
      (directives.map ScopeDirective.sortKey).Pairwise fun first second =>
        (policy.compareNames first second).isLE = true := fun directives => by
    rw [OrderPolicy.isSorted_iff_pairwise, List.pairwise_map]
    rfl
  rw [OrderPolicy.inverted_iff, OrderPolicy.inverted_iff, ← Bool.not_eq_true, ← Bool.not_eq_true,
    hsorted, hsorted, h]

/-- **What is reported.** For a text with a tree, the rule gives one finding for each scope in which a
directive comes before another, next to it or not, that sorts lower, and none for any other scope. The
finding spans the directives of its scope from the first to the last. Findings are parts of the text,
in its order and apart from each other. With other directives in one scope the findings about all others
are the same, and whether a scope is reported depends on nothing but the names that its directives
import, whatever text it stands in. -/
theorem evaluate_exact {id : DocumentId} {path : Path} {text : Text} {tree : Tree}
    (hroot : (Document.parse CSharp.reader id path text).1.root = .ok tree) (policy : OrderPolicy) :
    ∃ found,
      (rule policy).evaluate (Document.parse CSharp.reader id path text).1 = .ok found ∧
      Forall₂ (Reports id)
        (tree.everyScope.filter fun scope => policy.Inverted scope.directives) found ∧
      (∀ finding ∈ found, finding.span.Cuts text ∧ finding.span.start < finding.span.stop) ∧
      (found.Pairwise fun first second => first.span.stop ≤ second.span.start) ∧
      (∀ front scope back, tree.everyScope = front ++ scope :: back → ∀ directives,
        ∃ before own own' after, found = before ++ own ++ after ∧
          (rule policy).evaluate
            { (Document.parse CSharp.reader id path text).1 with
              tree := .ok (tree.withDirectives directives front.length) } =
                .ok (before ++ own' ++ after) ∧
          Forall₂ (Reports id) (front.filter fun scope => policy.Inverted scope.directives) before ∧
          Forall₂ (Reports id) (back.filter fun scope => policy.Inverted scope.directives) after ∧
          own'.length ≤ 1) ∧
      ∀ id' path' text' tree', (Document.parse CSharp.reader id' path' text').1.root = .ok tree' →
        ∀ scope ∈ tree.everyScope, ∀ scope' ∈ tree'.everyScope,
          scope.directives.map ScopeDirective.sortKey = scope'.directives.map ScopeDirective.sortKey →
            (Reported policy (Document.parse CSharp.reader id path text).1 scope ↔
              Reported policy (Document.parse CSharp.reader id' path' text').1 scope') := by
  obtain ⟨late, hread⟩ := Document.root_parse_eq_ok_iff.mp hroot
  obtain ⟨mark, chunks, hlaid, -⟩ := exists_laid hread
  obtain ⟨hstand, hapart⟩ := scopes_of_laid hlaid
  rw [← tree.scopes_eq_everyScope]
  refine ⟨reports policy id tree.scopes, evaluate_eq_reports hread policy id path,
    forall₂_reports hstand, fun finding hmem => cuts_of_mem_reports hstand hmem,
    pairwise_reports hstand hapart, ?_, ?_⟩
  · intro front scope back hscopes directives
    rw [hscopes] at hstand
    -- findings come scope by scope, so that the others do not change with the directives of one
    have hcut : ∀ scope : Scope, reports policy id (front ++ scope :: back) =
        reports policy id front ++ reports policy id [scope] ++ reports policy id back := fun scope => by
      rw [← reports_append, ← reports_append, List.append_assoc, List.singleton_append]
    refine ⟨reports policy id front, reports policy id [scope],
      reports policy id [scope.withDirectives directives], reports policy id back, ?_, ?_, ?_, ?_,
      reports_singleton_length policy id _⟩
    · rw [hscopes, hcut]
    · rw [← hcut, ← tree.scopes_withDirectives directives hscopes, Document.parse_eq hread]
      rfl
    · exact forall₂_reports fun scope hmem => hstand scope (List.mem_append_left _ hmem)
    · exact forall₂_reports fun scope hmem =>
        hstand scope (List.mem_append_right _ (List.mem_cons_of_mem _ hmem))
  · intro id' path' text' tree' hroot' scope hscope scope' hscope' hnames
    rw [← tree'.scopes_eq_everyScope] at hscope'
    rw [reported_iff ⟨late, hread⟩ hscope, reported_iff (Document.root_parse_eq_ok_iff.mp hroot') hscope',
      inverted_iff_of_names hnames]

/-- The file scope of a text with a namespace is judged as in a text without, whatever is put into the
namespace. -/
theorem evaluate_exact_of_namespace :
    ∃ tree tree' found,
      (Document.parse CSharp.reader ⟨0⟩ ⟨"a.cs"⟩
        "using B; using C; using A; namespace N \x7b using B; using A; \x7d".toList).1.root = .ok tree ∧
      (Document.parse CSharp.reader ⟨1⟩ ⟨"b.cs"⟩ "using B;\nusing C;\nusing A;\n".toList).1.root =
        .ok tree' ∧
      (rule .alphabetical).evaluate (Document.parse CSharp.reader ⟨0⟩ ⟨"a.cs"⟩
        "using B; using C; using A; namespace N \x7b using B; using A; \x7d".toList).1 = .ok found ∧
      Forall₂ (Reports ⟨0⟩)
        (tree.everyScope.filter fun scope => OrderPolicy.alphabetical.Inverted scope.directives) found ∧
      (∀ directives, ∃ before own own' after, found = before ++ own ++ after ∧
        (rule .alphabetical).evaluate
          { (Document.parse CSharp.reader ⟨0⟩ ⟨"a.cs"⟩
            "using B; using C; using A; namespace N \x7b using B; using A; \x7d".toList).1 with
              tree := .ok (tree.withDirectives directives 0) } = .ok (before ++ own' ++ after)) ∧
      (Reported .alphabetical (Document.parse CSharp.reader ⟨0⟩ ⟨"a.cs"⟩
          "using B; using C; using A; namespace N \x7b using B; using A; \x7d".toList).1 tree.fileScope ↔
        Reported .alphabetical (Document.parse CSharp.reader ⟨1⟩ ⟨"b.cs"⟩
          "using B;\nusing C;\nusing A;\n".toList).1 tree'.fileScope) := by
  obtain ⟨tree, htree, hnames⟩ := Option.map_eq_some_iff.mp (by decide +kernel : (CSharp.tree?
    "using B; using C; using A; namespace N \x7b using B; using A; \x7d".toList).map
      (fun tree => tree.fileScope.directives.map ScopeDirective.sortKey) = some [['B'], ['C'], ['A']])
  obtain ⟨tree', htree', hnames'⟩ := Option.map_eq_some_iff.mp (by decide +kernel : (CSharp.tree?
    "using B;\nusing C;\nusing A;\n".toList).map
      (fun tree => tree.fileScope.directives.map ScopeDirective.sortKey) = some [['B'], ['C'], ['A']])
  have hroot := Document.root_parse_of_tree? htree ⟨0⟩ ⟨"a.cs"⟩
  have hroot' := Document.root_parse_of_tree? htree' ⟨1⟩ ⟨"b.cs"⟩
  obtain ⟨found, hfound, hreports, -, -, hother, halone⟩ := evaluate_exact hroot .alphabetical
  refine ⟨tree, tree', found, hroot, hroot', hfound, hreports, fun directives => ?_, ?_⟩
  · obtain ⟨before, own, own', after, hcut, hevaluate, -⟩ := hother [] _ _ rfl directives
    exact ⟨before, own, own', after, hcut, hevaluate⟩
  · exact halone ⟨1⟩ ⟨"b.cs"⟩ _ tree' hroot' tree.fileScope List.mem_cons_self tree'.fileScope
      List.mem_cons_self (hnames.trans hnames'.symm)

end DirectiveOrder

end CSharpTidy
