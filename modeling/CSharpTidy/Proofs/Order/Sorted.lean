import Mathlib.Data.List.SplitBy
import CSharpTidy.Proofs.Order.Crossing
import CSharpTidy.Proofs.Run.Tidied

/-!
# What the fix makes of a scope

A scope that is out of order falls into runs of directives with no preprocessor line in the gaps between
them, and the fix sorts each run where it stands. All else about a fixed text follows from that: global
directives stay in front, what is still reported is divided, and a second fix has nothing to do.
-/

namespace CSharpTidy

open List (Forall₂)
open Piece (width spell)

namespace DirectiveOrder

/-- The longest runs of directives with no preprocessor line in the gaps between them. -/
def runs (tokens : List Token) (block : List Directive) : List (List Directive) :=
  block.splitBy fun first second => !Token.splits tokens first.span.stop second.span.start

/-- A run in stable order: global directives first, then as the policy says. -/
def sortedRun (policy : OrderPolicy) (run : List Directive) : List Directive :=
  run.mergeSort fun first second => policy.sortsBefore (.ofDirective first) (.ofDirective second)

/-- No global directive stands behind one that is not. -/
def GlobalsFirst (block : List Directive) : Prop :=
  block.Pairwise fun first second => second.isGlobal = true → first.isGlobal = true

variable {policy : OrderPolicy} {text text' mark : Text} {tokens tokens' : List Token}
  {tree tree' : Tree} {chunks chunks' : List Chunk} {block block' : List Directive}
  {blocks blocks' : List (List Directive)} {offset : Nat}

/-! ## Runs and regions -/

theorem splitBy_cons_cons {α : Type} (r : α → α → Bool) (first second : α) (rest : List α) :
    (first :: second :: rest).splitBy r =
      if r first second then ((second :: rest).splitBy r).modifyHead (first :: ·)
      else [first] :: (second :: rest).splitBy r := by
  split
  · next hjoined =>
      generalize hparts : (second :: rest).splitBy r = parts
      obtain ⟨hflatten, hnil, hchain, hbounds⟩ := List.splitBy_eq_iff.mp hparts
      cases parts with
      | nil => cases hflatten
      | cons part parts =>
          cases part with
          | nil => exact absurd List.mem_cons_self hnil
          | cons head part =>
              obtain ⟨rfl, hrest⟩ := List.cons.inj hflatten
              rw [List.modifyHead_cons, List.splitBy_eq_iff]
              refine ⟨congrArg _ hflatten, ?_, ?_, ?_⟩
              · simpa using hnil
              · intro run hmem
                rcases List.mem_cons.mp hmem with rfl | hmem
                · exact .cons_cons hjoined (hchain _ List.mem_cons_self)
                · exact hchain run (List.mem_cons_of_mem _ hmem)
              · rw [List.isChain_cons] at hbounds ⊢
                refine ⟨fun next hnext => ?_, hbounds.2⟩
                obtain ⟨hne, hne', hsplit⟩ := hbounds.1 next hnext
                exact ⟨List.cons_ne_nil _ _, hne', hsplit⟩
  · next hsplit =>
      have hcut := List.splitBy_append_cons (r := r) (l := [first]) (a := second) rest
        (by simpa using hsplit)
      exact hcut

theorem regions_eq_runs (h : SplitsBy text tokens block) :
    regions text (block.map ScopeDirective.ofDirective) =
      (runs tokens block).map (List.map ScopeDirective.ofDirective) := by
  induction block with
  | nil => rfl
  | cons first rest ih =>
      cases rest with
      | nil => rfl
      | cons second rest =>
          have hsplit := h [] first second rest rfl
          obtain ⟨region, others, hfound⟩ := exists_first_region text (.ofDirective second)
            (rest.map ScopeDirective.ofDirective)
          have hrest := ih h.tail
          rw [List.map_cons, hfound] at hrest
          rw [List.map_cons, List.map_cons, regions, hfound, runs, splitBy_cons_cons, ← runs]
          simp only [hsplit]
          cases Token.splits tokens first.span.stop second.span.start with
          | true => rw [hrest]; rfl
          | false =>
              cases hruns : runs tokens (second :: rest) with
              | nil => rw [hruns] at hrest; cases hrest
              | cons run others' =>
                  rw [hruns, List.map_cons] at hrest
                  obtain ⟨hrun, hothers⟩ := List.cons.inj hrest
                  simp [hrun, hothers]

theorem map_sortedRun (policy : OrderPolicy) (run : List Directive) :
    (sortedRun policy run).map ScopeDirective.ofDirective =
      (run.map ScopeDirective.ofDirective).mergeSort policy.sortsBefore :=
  List.map_mergeSort fun _ _ _ _ => rfl

theorem pairwise_sortedRun (policy : OrderPolicy) (run : List Directive) :
    (sortedRun policy run).Pairwise fun first second =>
      policy.sortsBefore (.ofDirective first) (.ofDirective second) = true := by
  apply List.pairwise_mergeSort
  · intro first second third
    exact OrderPolicy.sortsBefore_trans _ _ _
  · intro first second
    exact OrderPolicy.sortsBefore_total _ _

/-- The directives of a scope in the order in which the fix puts them. -/
def rearranged (policy : OrderPolicy) (tokens : List Token) (block : List Directive) :
    List Directive :=
  if policy.isSorted (block.map ScopeDirective.ofDirective) then block
  else (runs tokens block).flatMap (sortedRun policy)

theorem arranged_eq_map (h : SplitsBy text tokens block) (policy : OrderPolicy) :
    arranged policy text (block.map ScopeDirective.ofDirective) =
      (rearranged policy tokens block).map ScopeDirective.ofDirective := by
  unfold arranged rearranged
  split
  · rfl
  · rw [regions_eq_runs h, List.flatMap_map, List.map_flatMap]
    exact List.flatMap_congr fun run _ => (map_sortedRun policy run).symm

theorem runs_flatten (tokens : List Token) (block : List Directive) :
    (runs tokens block).flatten = block := List.flatten_splitBy _ block

theorem mem_rearranged {directive : Directive} :
    directive ∈ rearranged policy tokens block ↔ directive ∈ block := by
  unfold rearranged
  split
  · exact Iff.rfl
  · conv_rhs => rw [← runs_flatten tokens block]
    simp [List.mem_flatMap, List.mem_flatten, sortedRun]

theorem globalsFirst_rearranged (h : GlobalsFirst block) (policy : OrderPolicy)
    (tokens : List Token) : GlobalsFirst (rearranged policy tokens block) := by
  unfold rearranged
  split
  · exact h
  · rw [GlobalsFirst, ← runs_flatten tokens block, List.pairwise_flatten] at h
    rw [GlobalsFirst, List.pairwise_flatMap]
    constructor
    · intro run _
      refine (pairwise_sortedRun policy run).imp fun {first second} hbefore hglobal => ?_
      rcases OrderPolicy.sortsBefore_iff.mp hbefore with ⟨hfirst, -⟩ | ⟨hsame, -⟩
      · exact hfirst
      · exact hsame.trans hglobal
    · refine h.2.imp fun {run run'} hacross first hfirst second hsecond => ?_
      exact hacross first (List.mem_mergeSort.mp hfirst) second (List.mem_mergeSort.mp hsecond)

/-! ## Scopes in their chunks -/

/-- Slots with the same gaps and texts of the same bodies hold directives in the same places. -/
theorem spans_eq_of_holds {slots slots' : List DirectiveSlot} {directives directives' : List Directive}
    (h : DirectiveSlot.Holds offset slots directives)
    (h' : DirectiveSlot.Holds offset slots' directives')
    (hslots : Forall₂ (fun slot slot' : DirectiveSlot =>
      slot'.gap = slot.gap ∧ spell slot'.body = spell slot.body) slots slots') :
    directives'.map Directive.span = directives.map Directive.span := by
  induction h generalizing slots' directives' with
  | nil =>
      cases hslots
      cases h'
      rfl
  | @cons offset slot directive slots directives hspan _ _ ih =>
      cases hslots with
      | @cons _ slot' _ slots' hslot hrest =>
          cases h' with
          | @cons _ _ directive' _ directives' hspan' _ hothers' =>
              obtain ⟨hgap, hbody⟩ := hslot
              have hwidth : width slot'.body = width slot.body := congrArg Text.size hbody
              have hpieces : width slot'.pieces = width slot.pieces := by
                rw [DirectiveSlot.pieces, DirectiveSlot.pieces, Piece.width_append,
                  Piece.width_append, hgap, hwidth]
              rw [hpieces] at hothers'
              rw [List.map_cons, List.map_cons, hspan, hspan', hgap, hwidth, ih hothers' hrest]

/-- A scope and what the fix makes of it, in chunks that begin at the same offset. -/
structure Replaced (policy : OrderPolicy) (text text' : Text) (offset : Nat) (chunk chunk' : Chunk)
    (block block' : List Directive) : Prop where
  evenly : chunk.Evenly chunk'
  holds : DirectiveSlot.Holds offset chunk.slots block
  holds' : DirectiveSlot.Holds offset chunk'.slots block'
  stands : Chunk.Stands text block chunk
  takes : Chunk.Takes policy text block chunk'
  stands' : Chunk.Stands text' block' chunk'

theorem forall₂_replaced (hevenly : Forall₂ Chunk.Evenly chunks chunks')
    (h : Chunk.Holds offset chunks blocks) (h' : Chunk.Holds offset chunks' blocks')
    (hstands : Forall₂ (Chunk.Stands text) blocks chunks)
    (htakes : Forall₂ (Chunk.Takes policy text) blocks chunks')
    (hstands' : Forall₂ (Chunk.Stands text') blocks' chunks') :
    Forall₂ (fun block block' => ∃ offset chunk chunk',
      Replaced policy text text' offset chunk chunk' block block') blocks blocks' := by
  induction hevenly generalizing offset blocks blocks' with
  | nil =>
      cases h
      cases h'
      exact .nil
  | @cons chunk chunk' chunks chunks' hchunk _ ih =>
      cases h with
      | cons hslots hrest =>
          cases h' with
          | cons hslots' hrest' =>
              cases hstands with
              | cons hstand hstands =>
                  cases htakes with
                  | cons htake htakes =>
                      cases hstands' with
                      | cons hstand' hstands' =>
                          have hwidth : width chunk'.pieces = width chunk.pieces := by
                            rw [Chunk.pieces, Chunk.pieces, Piece.width_append, Piece.width_append,
                              hchunk.width, hchunk.tail]
                          rw [hwidth] at hrest'
                          exact .cons ⟨_, _, _, hchunk, hslots, hslots', hstand, htake, hstand'⟩
                            (ih hrest hrest' hstands htakes hstands')

theorem Fixed.replaced (h : Fixed policy text tree text' tree' mark chunks chunks') :
    Forall₂ (fun block block' => ∃ offset chunk chunk',
      Replaced policy text text' offset chunk chunk' block block') tree.blocks tree'.blocks := by
  have hstands := h.laid.holds.stands []
  have hstands' := h.laid'.holds.stands []
  rw [List.append_nil, ← h.laid.cut.eq] at hstands
  rw [List.append_nil, ← h.laid'.cut.eq] at hstands'
  exact forall₂_replaced h.evenly h.laid.holds h.laid'.holds hstands h.takes hstands'

theorem Fixed.summary_eq (h : Fixed policy text tree text' tree' mark chunks chunks')
    {directive directive' : Directive} (hmem : directive ∈ tree.blocks.flatten)
    (hmem' : directive' ∈ tree'.blocks.flatten)
    (hslice : directive.span.slice text = directive'.span.slice text') :
    directive.summary text = directive'.summary text' := by
  obtain ⟨slot, hreads, hbody, hcontent, -⟩ := exists_slot_of_laid h.laid hmem
  obtain ⟨slot', hreads', hbody', hcontent', -⟩ := exists_slot_of_laid h.laid' hmem'
  have hsame := hreads.content_eq hreads' (by rw [← hbody, ← hbody', hslice])
  rw [Directive.summary, Directive.summary, hslice, hcontent, hcontent', hsame]

namespace Replaced

variable {chunk chunk' : Chunk} (h : Replaced policy text text' offset chunk chunk' block block')

include h

theorem forall₂_rearranged (hsplits : SplitsBy text tokens block) :
    Forall₂ (fun directive directive' : Directive =>
      directive.span.slice text = directive'.span.slice text')
      (rearranged policy tokens block) block' := by
  have hshows := h.takes.shows
  rw [arranged_eq_map hsplits, List.forall₂_map_left_iff] at hshows
  obtain ⟨before, rest, rfl, hholds⟩ := h.stands'
  have hshows' := hholds.shows rest
  rw [List.forall₂_map_left_iff] at hshows'
  refine (forall₂_comp hshows hshows'.flip).imp ?_
  rintro directive directive' ⟨slot, hshow, hshow'⟩
  exact hshow.slice.trans hshow'.slice.symm

theorem spans_eq (hsorted : policy.isSorted (block.map ScopeDirective.ofDirective) = true) :
    block'.map Directive.span = block.map Directive.span := by
  have hshows' := h.takes.shows
  rw [arranged, if_pos hsorted] at hshows'
  obtain ⟨before, rest, rfl, hholds⟩ := h.stands
  have hbodies : Forall₂ (fun slot slot' : DirectiveSlot => spell slot'.body = spell slot.body)
      chunk.slots chunk'.slots := by
    refine (forall₂_comp (hholds.shows rest).flip hshows').imp ?_
    rintro slot slot' ⟨directive, hshow, hshow'⟩
    exact hshow'.slice.symm.trans hshow.slice
  refine spans_eq_of_holds h.holds h.holds' ?_
  exact List.Forall₂.mp (fun slot slot' hslot hbody => ⟨hslot.1, hbody⟩) h.evenly.slots hbodies

theorem splitAlike : SplitAlike text text' (block.map ScopeDirective.ofDirective)
    (block'.map ScopeDirective.ofDirective) := by
  have hlength := h.takes.shows.length_eq
  obtain ⟨before, rest, rfl, hholds⟩ := h.stands'
  refine splitAlike_of_between ?_ ?_
  · rw [(hholds.shows rest).length_eq, ← hlength, (arranged_perm policy text _).length_eq]
  · rw [h.takes.between, hholds.between rest]

end Replaced

/-! ## Scopes before and after -/

structure Rearranged (policy : OrderPolicy) (text : Text) (tokens : List Token) (text' : Text)
    (tokens' : List Token) (block block' : List Directive) : Prop where
  /-- A scope in order is left alone. -/
  untouched : policy.isSorted (block.map ScopeDirective.ofDirective) = true →
    block'.map Directive.span = block.map Directive.span ∧
      block'.map (Directive.summary text') = block.map (Directive.summary text)
  /-- Each run of a scope out of order is sorted where it stands. -/
  sorted : policy.isSorted (block.map ScopeDirective.ofDirective) = false →
    (runs tokens' block').map (List.map (Directive.summary text')) =
      (runs tokens block).map fun run => (sortedRun policy run).map (Directive.summary text)
  globalsFirst : GlobalsFirst block → GlobalsFirst block'

theorem map_runs_eq (hsplits : SplitsBy text tokens block) (hsplits' : SplitsBy text' tokens' block')
    (halike : SplitAlike text text' (block.map ScopeDirective.ofDirective)
      (block'.map ScopeDirective.ofDirective))
    (hsummary : Forall₂ (fun directive directive' : Directive =>
      directive'.summary text' = directive.summary text)
      ((runs tokens block).flatMap (sortedRun policy)) block') :
    (runs tokens' block').map (List.map (Directive.summary text')) =
      (runs tokens block).map fun run => (sortedRun policy run).map (Directive.summary text) := by
  have hlength := halike.regions_length
  rw [regions_eq_runs hsplits, regions_eq_runs hsplits', List.forall₂_map_left_iff,
    List.forall₂_map_right_iff] at hlength
  have hsorted : Forall₂ (fun run run' : List Directive => run.length = run'.length)
      ((runs tokens block).map (sortedRun policy)) (runs tokens' block') := by
    rw [List.forall₂_map_left_iff]
    refine hlength.imp fun run run' hruns => ?_
    rw [sortedRun, List.length_mergeSort]
    simpa using hruns
  rw [List.flatMap_def, ← runs_flatten tokens' block'] at hsummary
  have hruns := forall₂_of_flatten hsorted hsummary
  rw [List.forall₂_map_left_iff] at hruns
  exact Read.map_eq_of_forall₂ (hruns.imp fun run run' hrun => Read.map_eq_of_forall₂ hrun)

theorem Fixed.rearranges {late : List Text}
    (h : Fixed policy text tree text' tree' mark chunks chunks')
    (hread : CSharp.read text = (late, .ok tree)) (hread' : CSharp.read text' = (late, .ok tree'))
    (htokens : tokenize text = .ok tokens) (htokens' : tokenize text' = .ok tokens') :
    Forall₂ (Rearranged policy text tokens text' tokens') tree.blocks tree'.blocks := by
  obtain ⟨hlength, hreplaced⟩ := List.forall₂_iff_zip.mp h.replaced
  refine List.forall₂_iff_zip.mpr ⟨hlength, fun {block block'} hmem => ?_⟩
  obtain ⟨offset, chunk, chunk', hreplaced⟩ := hreplaced hmem
  obtain ⟨hblock, hblock'⟩ := List.of_mem_zip hmem
  have hsplits := splitsBy_of_read hread htokens block hblock
  have hsplits' := splitsBy_of_read hread' htokens' block' hblock'
  have hsummary : Forall₂ (fun directive directive' : Directive =>
      directive'.summary text' = directive.summary text)
      (rearranged policy tokens block) block' := by
    obtain ⟨hlength, hslices⟩ := List.forall₂_iff_zip.mp (hreplaced.forall₂_rearranged hsplits)
    refine List.forall₂_iff_zip.mpr ⟨hlength, fun {directive directive'} hpair => ?_⟩
    obtain ⟨hdirective, hdirective'⟩ := List.of_mem_zip hpair
    exact (h.summary_eq (List.mem_flatten_of_mem hblock (mem_rearranged.mp hdirective))
      (List.mem_flatten_of_mem hblock' hdirective') (hslices hpair)).symm
  refine ⟨fun hsorted => ⟨hreplaced.spans_eq hsorted, ?_⟩, fun hsorted => ?_, fun hglobals => ?_⟩
  · rw [rearranged, if_pos hsorted] at hsummary
    exact Read.map_eq_of_forall₂ hsummary
  · rw [rearranged, if_neg (by simp [hsorted])] at hsummary
    exact map_runs_eq hsplits hsplits' hreplaced.splitAlike hsummary
  · have hfirst := globalsFirst_rearranged hglobals policy tokens
    have hflags : block'.map Directive.isGlobal =
        (rearranged policy tokens block).map Directive.isGlobal :=
      Read.map_eq_of_forall₂ (hsummary.imp fun _ _ hsame =>
        congrArg (fun summary => summary.2.2.2) hsame)
    have hpairwise : ((rearranged policy tokens block).map Directive.isGlobal).Pairwise
        fun first second => second = true → first = true := List.pairwise_map.mpr hfirst
    rw [← hflags] at hpairwise
    exact List.pairwise_map.mp hpairwise

/-! ## What is reported afterwards -/

theorem pairwise_start_of_laid (h : Laid text mark chunks tree) :
    tree.blocks.flatten.Pairwise fun first second => first.span.start < second.span.start := by
  have hreads := Chunk.forall_slots_join h.reads []
  have hholds := h.holds_join
  generalize (Chunk.join [] chunks).slots = slots at hreads hholds
  generalize mark.size = offset at hholds
  generalize tree.blocks.flatten = directives at hholds ⊢
  induction hholds with
  | nil => exact .nil
  | @cons offset slot directive slots directives hspan _ hrest ih =>
      have hlater := (pairwise_of_holds hrest).1
      have hwidth : width slot.pieces = width slot.gap + width slot.body := by
        rw [DirectiveSlot.pieces, Piece.width_append]
      have hpos := (hreads slot List.mem_cons_self).width_pos
      refine List.pairwise_cons.mpr ⟨fun later hmem => ?_,
        ih fun later hmem => hreads later (List.mem_cons_of_mem _ hmem)⟩
      have hbehind := hlater later hmem
      calc directive.span.start = offset + width slot.gap := by rw [hspan]
        _ < offset + width slot.pieces := by omega
        _ ≤ later.span.start := hbehind

theorem directives_eq_of_block? {scope scope' : Scope} {span : Span}
    (h : Laid text mark chunks tree) (hscope : scope ∈ tree.scopes) (hscope' : scope' ∈ tree.scopes)
    (hblock : scope.block? = some span) (hblock' : scope'.block? = some span) :
    scope.directives = scope'.directives := by
  have hstart : ∀ {scope : Scope}, scope.block? = some span →
      ∃ directive ∈ scope.directives, directive.span.start = span.start := by
    intro scope hblock
    unfold Scope.block? at hblock
    split at hblock
    · next first last hfirst hlast =>
        obtain rfl := Option.some.inj hblock
        rcases Nat.le_total first.span.start last.span.start with hle | hle
        · exact ⟨first, List.mem_of_mem_head? hfirst, (Nat.min_eq_left hle).symm⟩
        · exact ⟨last, List.mem_of_mem_getLast? hlast, (Nat.min_eq_right hle).symm⟩
    · cases hblock
  have hordered : (tree.blocks.flatten.map ScopeDirective.ofDirective).Pairwise
      fun first second => first.span.start < second.span.start :=
    List.pairwise_map.mpr (pairwise_start_of_laid h)
  rw [List.map_flatten, ← tree.scopes_map_directives, List.pairwise_flatten, List.pairwise_map] at hordered
  let Apart (scope scope' : Scope) : Prop := ∀ directive ∈ scope.directives,
    ∀ directive' ∈ scope'.directives, directive.span.start ≠ directive'.span.start
  have happart : tree.scopes.Pairwise Apart := hordered.2.imp fun hlt directive hmem directive' hmem' =>
    Nat.ne_of_lt (hlt directive hmem directive' hmem')
  have hsymm : Std.Symm Apart := ⟨fun scope scope' hne directive hmem directive' hmem' =>
    (hne directive' hmem' directive hmem).symm⟩
  obtain ⟨directive, hmem, hfirst⟩ := hstart hblock
  obtain ⟨directive', hmem', hfirst'⟩ := hstart hblock'
  by_contra hne
  have hscopes : scope ≠ scope' := fun hsame => hne (congrArg Scope.directives hsame)
  exact happart.forall hscope hscope' hscopes directive hmem directive' hmem'
    (hfirst.trans hfirst'.symm)

/-- A scope of a settled text that is reported is divided. -/
theorem divided_of_finding {late : List Text} {id : DocumentId} {scope : Scope} {finding : Finding}
    (hlaid : Laid text mark chunks tree) (hread : CSharp.read text = (late, .ok tree))
    (htokens : tokenize text = .ok tokens)
    (hsettled : ∀ block ∈ tree.blocks, Settled policy text (block.map ScopeDirective.ofDirective))
    (hfinding : finding ∈ findings policy id tree) (hscope : scope ∈ tree.scopes)
    (hblock : scope.block? = some finding.span) : scope.Divided tokens := by
  obtain ⟨reported, hdisordered, hfound⟩ := List.mem_filterMap.mp hfinding
  obtain ⟨hreported, hsorted⟩ := List.mem_filter.mp hdisordered
  obtain ⟨span, hspan, rfl⟩ := Option.map_eq_some_iff.mp hfound
  have hdirectives := directives_eq_of_block? hlaid hscope hreported hblock hspan
  refine Scope.divided_of_settled hread htokens hsettled hscope ?_
  rw [hdirectives]
  simpa using hsorted

/-- **What the fix makes of a text.** The edits of the fix are accepted and the new text has a tree.
Scopes in order are left alone. In every other one, each longest run of directives with no preprocessor
line in the gaps between them is put into stable order, global directives first and then as the policy
says, and where all global directives of a scope stood in front they still do. A scope that the rule
reports afterwards has a preprocessor line between two of its directives, or only some of them are
global. Fixed once more, the new text needs no edits. -/
theorem fix_sorts_runs {id : DocumentId} {path : Path}
    (hroot : (Document.parse CSharp.reader id path text).1.root = .ok tree) (policy : OrderPolicy) :
    ∃ edits text' tree' tokens tokens' found,
      (rule policy).fix (Document.parse CSharp.reader id path text).1 = .ok edits ∧
      Edit.applyAll text edits = .ok text' ∧
      (Document.parse CSharp.reader id path text').1.root = .ok tree' ∧
      tokenize text = .ok tokens ∧ tokenize text' = .ok tokens' ∧
      Forall₂ (Rearranged policy text tokens text' tokens') tree.blocks tree'.blocks ∧
      (rule policy).evaluate (Document.parse CSharp.reader id path text').1 = .ok found ∧
      (∀ finding ∈ found, ∀ scope ∈ tree'.scopes, scope.block? = some finding.span →
        scope.Divided tokens') ∧
      (rule policy).fix (Document.parse CSharp.reader id path text').1 = .ok [] := by
  obtain ⟨late, hread⟩ := Document.root_parse_eq_ok_iff.mp hroot
  obtain ⟨text', tree', mark, chunks, chunks', hread', hfixed⟩ := exists_fixed hread policy
  have htokens := hfixed.laid.cut.tokenize_eq
  have htokens' := hfixed.laid'.cut.tokenize_eq
  refine ⟨edits policy text tree, text', tree', _, _, findings policy id tree', ?_,
    hfixed.turns.applyAll_eq, Document.root_parse_eq_ok_iff.mpr ⟨late, hread'⟩, htokens, htokens',
    hfixed.rearranges hread hread' htokens htokens', ?_, ?_, ?_⟩
  · rw [Document.parse_eq hread]
    rfl
  · rw [Document.parse_eq hread']
    rfl
  · intro finding hfinding scope hscope hblock
    exact divided_of_finding hfixed.laid' hread' htokens' hfixed.settled hfinding hscope hblock
  · rw [Document.parse_eq hread']
    exact congrArg Except.ok (edits_eq_nil hfixed.settled)

/-- Two runs of one scope are sorted, a global directive goes to the front of its run. -/
theorem fix_sorts_runs_of_globals :
    ∃ tree edits text' tree' tokens tokens',
      (Document.parse CSharp.reader ⟨0⟩ ⟨"a.cs"⟩
        "using B;\nglobal using Z;\nusing A;\n#if X\nusing D;\nusing C; using D;\n".toList).1.root =
          .ok tree ∧
      (rule .alphabetical).fix (Document.parse CSharp.reader ⟨0⟩ ⟨"a.cs"⟩
        "using B;\nglobal using Z;\nusing A;\n#if X\nusing D;\nusing C; using D;\n".toList).1 =
          .ok edits ∧
      Edit.applyAll
        "using B;\nglobal using Z;\nusing A;\n#if X\nusing D;\nusing C; using D;\n".toList edits =
          .ok text' ∧
      (Document.parse CSharp.reader ⟨0⟩ ⟨"a.cs"⟩ text').1.root = .ok tree' ∧
      Forall₂ (Rearranged .alphabetical
        "using B;\nglobal using Z;\nusing A;\n#if X\nusing D;\nusing C; using D;\n".toList tokens
        text' tokens') tree.blocks tree'.blocks ∧
      (rule .alphabetical).fix (Document.parse CSharp.reader ⟨0⟩ ⟨"a.cs"⟩ text').1 = .ok [] := by
  obtain ⟨tree, htree⟩ := Option.isSome_iff_exists.mp (by decide +kernel : (CSharp.tree?
    "using B;\nglobal using Z;\nusing A;\n#if X\nusing D;\nusing C; using D;\n".toList).isSome)
  have hroot := Document.root_parse_of_tree? htree ⟨0⟩ ⟨"a.cs"⟩
  obtain ⟨edits, text', tree', tokens, tokens', found, hfix, happly, hroot', -, -, hblocks, -, -,
    hagain⟩ := fix_sorts_runs hroot .alphabetical
  exact ⟨tree, edits, text', tree', tokens, tokens', hroot, hfix, happly, hroot', hblocks, hagain⟩

end DirectiveOrder

end CSharpTidy
