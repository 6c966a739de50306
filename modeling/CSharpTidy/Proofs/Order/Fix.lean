import Mathlib.Algebra.GroupWithZero.Nat
import CSharpTidy.Proofs.Order.Swap
import CSharpTidy.Proofs.Tree.Document

/-!
# The fix of the directive order

The fix turns a text into one that is laid out in the same chunks, each refilled as its scope is
arranged. So the new text has a tree, directives stay in their scopes, what stands around the slots is
left alone, and every scope of the new tree is settled.
-/

namespace CSharpTidy

open List (Forall₂)
open Piece (width spell)

namespace DirectiveSlot

variable {slots sources : List DirectiveSlot}

/-- Slots with the directives of others, one after another. -/
def refill (slots sources : List DirectiveSlot) : List DirectiveSlot :=
  List.zipWith (fun slot source => { source with gap := slot.gap }) slots sources

theorem refill_gaps (h : slots.length = sources.length) :
    Forall₂ (fun slot slot' : DirectiveSlot => slot'.gap = slot.gap) slots (refill slots sources) := by
  induction slots generalizing sources with
  | nil => exact .nil
  | cons slot slots ih =>
      cases sources with
      | nil => cases h
      | cons source sources => exact .cons rfl (ih (by simpa using h))

theorem refill_held (h : slots.length = sources.length) :
    Forall₂ (fun source slot' : DirectiveSlot => slot'.body = source.body ∧
      slot'.content = source.content) sources (refill slots sources) := by
  induction slots generalizing sources with
  | nil =>
      obtain rfl := List.eq_nil_of_length_eq_zero h.symm
      exact .nil
  | cons slot slots ih =>
      cases sources with
      | nil => cases h
      | cons source sources => exact .cons ⟨rfl, rfl⟩ (ih (by simpa using h))

theorem Reads.of_same {slot slot' : DirectiveSlot} (h : slot.Reads)
    (hsame : slot'.body = slot.body ∧ slot'.content = slot.content) : slot'.Reads := by
  obtain ⟨hbody, hcontent⟩ := hsame
  refine ⟨?_, ?_, ?_⟩
  · rw [hbody, hcontent]
    exact h.segment
  · rw [hbody]
    exact h.opens
  · rw [hbody]
    exact h.scans

theorem width_all (slots : List DirectiveSlot) :
    width (all slots) =
      (slots.map fun slot => width slot.gap).sum + (slots.map fun slot => width slot.body).sum := by
  induction slots with
  | nil => rfl
  | cons slot slots ih =>
      rw [Read.slot_all_cons, pieces, Piece.width_append, Piece.width_append, ih, List.map_cons,
        List.map_cons, List.sum_cons, List.sum_cons]
      omega

end DirectiveSlot

theorem forall₂_comp {α β γ : Type} {R : α → β → Prop} {S : β → γ → Prop} {first : List α}
    {second : List β} {third : List γ} (h : Forall₂ R first second) (h' : Forall₂ S second third) :
    Forall₂ (fun item item'' => ∃ item', R item item' ∧ S item' item'') first third := by
  induction h generalizing third with
  | nil =>
      cases h'
      exact .nil
  | cons hitem _ ih =>
      cases h' with
      | cons hitem' hrest => exact .cons ⟨_, hitem, hitem'⟩ (ih hrest)

namespace Chunk

open DirectiveSlot (Shows between)

variable {text before rest : Text} {chunk : Chunk} {chunks : List Chunk}
  {block : List Directive} {blocks : List (List Directive)} {policy : OrderPolicy}

/-- The directives of a scope stand in the slots of a chunk, somewhere in a text. -/
def Stands (text : Text) (block : List Directive) (chunk : Chunk) : Prop :=
  ∃ before rest, text = before ++ (spell (DirectiveSlot.all chunk.slots) ++ rest) ∧
    DirectiveSlot.Holds before.size chunk.slots block

theorem Holds.stands (h : Chunk.Holds before.size chunks blocks) (rest : Text) :
    Forall₂ (Stands (before ++ (spell (Chunk.all chunks) ++ rest))) blocks chunks := by
  generalize hoffset : before.size = offset at h
  induction h generalizing before with
  | nil => exact .nil
  | @cons offset chunk block chunks blocks hslots hrest ih =>
      have htext : before ++ (spell (Chunk.all (chunk :: chunks)) ++ rest) =
          before ++ spell chunk.pieces ++ (spell (Chunk.all chunks) ++ rest) := by
        rw [Read.chunk_all_cons]
        simp
      refine .cons ⟨before, spell chunk.tail ++ (spell (Chunk.all chunks) ++ rest), ?_, ?_⟩ ?_
      · rw [htext, Chunk.pieces]
        simp
      · rwa [hoffset]
      · rw [htext]
        exact ih (by rw [Text.size_append, hoffset]; rfl)

/-- A chunk takes the directives that stand in a text as they are arranged. -/
structure Takes (policy : OrderPolicy) (text : Text) (block : List Directive) (chunk : Chunk) :
    Prop where
  shows : Forall₂ (Shows text)
    (DirectiveOrder.arranged policy text (block.map ScopeDirective.ofDirective)) chunk.slots
  perm : (chunk.slots.map DirectiveSlot.summary).Perm (block.map (Directive.summary text))
  between : between text (block.map ScopeDirective.ofDirective) =
    chunk.slots.tail.map fun slot => spell slot.gap

theorem Stands.exists_takes (h : Stands text block chunk) (hreads : ∀ slot ∈ chunk.slots, slot.Reads)
    (policy : OrderPolicy) : ∃ chunk', chunk.Evenly chunk' ∧ Takes policy text block chunk' := by
  obtain ⟨before, rest, rfl, hholds⟩ := h
  have hperm := DirectiveOrder.arranged_perm policy
    (before ++ (spell (DirectiveSlot.all chunk.slots) ++ rest))
    (block.map ScopeDirective.ofDirective)
  obtain ⟨sources, hshows, hsources⟩ := List.perm_comp_forall₂ hperm (hholds.shows rest)
  have hlength : chunk.slots.length = sources.length := hsources.length_eq.symm
  have hgaps := DirectiveSlot.refill_gaps hlength
  have hheld := DirectiveSlot.refill_held hlength
  -- from here on only the gaps and what is held matter
  generalize DirectiveSlot.refill chunk.slots sources = slots' at hgaps hheld
  have hreads' : ∀ slot' ∈ slots', slot'.Reads := by
    intro slot' hslot'
    obtain ⟨source, hsource, hsame⟩ := Read.exists_of_mem_forall₂ hheld.flip hslot'
    exact (hreads source (hsources.mem_iff.mp hsource)).of_same hsame
  have hbodies : (slots'.map fun slot => width slot.body).sum =
      (chunk.slots.map fun slot => width slot.body).sum := by
    have hmap : slots'.map (fun slot => width slot.body) =
        sources.map fun slot => width slot.body :=
      Read.map_eq_of_forall₂ (hheld.imp fun _ _ hsame => congrArg width hsame.1)
    rw [hmap]
    exact (hsources.map _).sum_nat
  have hwidths : (slots'.map fun slot => width slot.gap) =
      chunk.slots.map fun slot => width slot.gap :=
    Read.map_eq_of_forall₂ (hgaps.imp fun _ _ hgap => congrArg width hgap)
  have htaken : Takes policy (before ++ (spell (DirectiveSlot.all chunk.slots) ++ rest)) block
      ⟨slots', chunk.tail⟩ := by
    refine ⟨?_, ?_, ?_⟩
    · refine (forall₂_comp hshows hheld).imp fun source slot' hboth => ?_
      obtain ⟨slot, hshown, hbody, hcontent⟩ := hboth
      exact ⟨by rw [hshown.slice, hbody], by rw [hshown.sortKey, hcontent],
        by rw [hshown.isGlobal, hcontent]⟩
    · have hmap : slots'.map DirectiveSlot.summary = sources.map DirectiveSlot.summary :=
        Read.map_eq_of_forall₂ (hheld.imp fun _ _ hsame => by
          rw [DirectiveSlot.summary, DirectiveSlot.summary, hsame.1, hsame.2])
      rw [hholds.summary rest, hmap]
      exact hsources.map _
    · have hmap : (slots'.map fun slot => spell slot.gap) =
          chunk.slots.map fun slot => spell slot.gap :=
        Read.map_eq_of_forall₂ (hgaps.imp fun _ _ hgap => congrArg spell hgap)
      rw [hholds.between rest, List.map_tail, List.map_tail, hmap]
  refine ⟨⟨slots', chunk.tail⟩, ⟨⟨rfl, ?_⟩, ?_⟩, htaken⟩
  · refine List.Forall₂.mp (fun slot slot' hgap hread => ⟨hgap, hread⟩) hgaps ?_
    refine List.forall₂_iff_zip.mpr ⟨hgaps.length_eq, fun {slot slot'} hmem => ?_⟩
    exact hreads' slot' (List.of_mem_zip hmem).2
  · rw [DirectiveSlot.width_all, DirectiveSlot.width_all, hbodies, hwidths]

theorem exists_takes_all (h : Forall₂ (Stands text) blocks chunks)
    (hreads : ∀ chunk ∈ chunks, ∀ slot ∈ chunk.slots, slot.Reads) (policy : OrderPolicy) :
    ∃ chunks', Forall₂ Chunk.Evenly chunks chunks' ∧ Forall₂ (Takes policy text) blocks chunks' := by
  induction h with
  | nil => exact ⟨[], .nil, .nil⟩
  | @cons block chunk blocks chunks hstands _ ih =>
      obtain ⟨chunk', hevenly, htakes⟩ :=
        hstands.exists_takes (hreads chunk List.mem_cons_self) policy
      obtain ⟨chunks', hchunks, hblocks⟩ :=
        ih fun other hother => hreads other (List.mem_cons_of_mem _ hother)
      exact ⟨chunk' :: chunks', .cons hevenly hchunks, .cons htakes hblocks⟩

end Chunk

namespace DirectiveOrder

variable {policy : OrderPolicy} {text text' mark : Text} {late : List Text} {tree tree' : Tree}
  {chunks chunks' : List Chunk}

/-- What the fix makes of a text, and how the two texts are laid out. -/
structure Fixed (policy : OrderPolicy) (text : Text) (tree : Tree) (text' : Text) (tree' : Tree)
    (mark : Text) (chunks chunks' : List Chunk) : Prop where
  laid : Laid text mark chunks tree
  laid' : Laid text' mark chunks' tree'
  aliases : ∀ chunk ∈ chunks, ∀ slot ∈ chunk.slots, ∀ offset,
    Read.Aliases (Piece.code offset slot.gap)
  evenly : Forall₂ Chunk.Evenly chunks chunks'
  takes : Forall₂ (Chunk.Takes policy text) tree.blocks chunks'
  skeleton : tree'.skeleton = tree.skeleton
  turns : Edit.Turns 0 (edits policy text tree) text text'

theorem shows_join (h : Forall₂ (Chunk.Takes policy text) tree.blocks chunks') :
    Forall₂ (DirectiveSlot.Shows text) (arrangedAll policy text tree.blocks)
      (Chunk.join [] chunks').slots := by
  have hshows : Forall₂ (DirectiveSlot.Shows text) (arrangedAll policy text tree.blocks)
      (chunks'.flatMap Chunk.slots) := by
    rw [arrangedAll, List.flatMap_def, List.flatMap_def]
    refine List.rel_flatten ?_
    rw [List.forall₂_map_left_iff, List.forall₂_map_right_iff]
    exact h.imp fun _ _ htakes => htakes.shows
  refine (forall₂_comp hshows (Chunk.forall₂_join [] chunks')).imp fun source slot' hboth => ?_
  obtain ⟨slot, hshown, hbody, hcontent⟩ := hboth
  exact ⟨by rw [hshown.slice, hbody], by rw [hshown.sortKey, hcontent],
    by rw [hshown.isGlobal, hcontent]⟩

theorem text_eq_of_laid (h : Laid text mark chunks tree) :
    text = mark ++ (spell (DirectiveSlot.all (Chunk.join [] chunks).slots) ++
      spell (Chunk.join [] chunks).tail) := by
  have hpieces := Chunk.join_pieces [] chunks
  rw [List.nil_append, Chunk.pieces] at hpieces
  rw [← Piece.spell_append, hpieces]
  exact h.cut.eq

/-- In a text in slots, the edits of the fix give each slot what is arranged into it. -/
theorem turns_edits {slots slots' : List DirectiveSlot} {tail : List Piece}
    (htext : text = mark ++ (spell (DirectiveSlot.all slots) ++ spell tail))
    (hholds : DirectiveSlot.Holds mark.size slots tree.blocks.flatten)
    (hsources : Forall₂ (DirectiveSlot.Shows text) (arrangedAll policy text tree.blocks) slots')
    (hgaps : Forall₂ (fun slot slot' : DirectiveSlot => spell slot'.gap = spell slot.gap) slots slots')
    (hbodies : ∀ slot ∈ slots, spell slot.body ≠ []) :
    Edit.Turns 0 (edits policy text tree) text
      (mark ++ (spell (DirectiveSlot.all slots') ++ spell tail)) := by
  have hturns := hholds.turns (htext ▸ hholds.shows (spell tail)) hsources hgaps hbodies (spell tail)
  rw [← edits_eq_swaps, ← Nat.zero_add mark.size] at hturns
  have hwhole := Edit.Turns.kept mark hturns
  rwa [← htext] at hwhole

theorem turns_of_takes (h : Laid text mark chunks tree)
    (hevenly : Forall₂ Chunk.Evenly chunks chunks')
    (htakes : Forall₂ (Chunk.Takes policy text) tree.blocks chunks') :
    Edit.Turns 0 (edits policy text tree) text (mark ++ spell (Chunk.all chunks')) := by
  obtain ⟨htail, hslots⟩ := Chunk.refilled_join (hevenly.imp fun _ _ h => h.toRefilled) []
  have hpieces' := Chunk.join_pieces [] chunks'
  rw [List.nil_append, Chunk.pieces, htail] at hpieces'
  have hturns := turns_edits (text_eq_of_laid h) h.holds_join (shows_join htakes)
    (hslots.imp fun _ _ hslot => congrArg spell hslot.1) fun slot hmem hnone => by
      obtain ⟨c, text, hbody, -⟩ := (Chunk.forall_slots_join h.reads [] slot hmem).opens
      rw [hnone] at hbody
      cases hbody
  rwa [← Piece.spell_append, hpieces'] at hturns

/-- **The fix is a refilling.** -/
theorem exists_fixed (h : CSharp.read text = (late, .ok tree)) (policy : OrderPolicy) :
    ∃ text' tree' mark chunks chunks',
      CSharp.read text' = (late, .ok tree') ∧
        Fixed policy text tree text' tree' mark chunks chunks' := by
  obtain ⟨mark, chunks, hlaid, haliases, hrefill⟩ := exists_laid h
  have hstands := hlaid.holds.stands []
  rw [List.append_nil, ← hlaid.cut.eq] at hstands
  obtain ⟨chunks', hevenly, htakes⟩ := Chunk.exists_takes_all hstands hlaid.reads policy
  obtain ⟨tree', hread, hskeleton, hlaid'⟩ := hrefill chunks' hevenly
  exact ⟨_, tree', mark, chunks, chunks', hread, hlaid, hlaid', haliases, hevenly, htakes, hskeleton,
    turns_of_takes hlaid hevenly htakes⟩

theorem allDirectives_blocks (declarations : List Namespace) :
    Namespace.allDirectives declarations = (Namespace.blocks declarations).flatten := by
  match declarations with
  | [] => rw [Namespace.allDirectives, Namespace.blocks, List.flatten_nil]
  | ⟨name, span, fileScoped, directives, inner⟩ :: rest =>
      rw [Namespace.allDirectives, Namespace.blocks, List.cons_append, List.flatten_cons,
        List.flatten_append, allDirectives_blocks inner, allDirectives_blocks rest,
        List.append_assoc]

theorem mem_allDirectives {directive : Directive} :
    directive ∈ tree.allDirectives ↔ ∃ block ∈ tree.blocks, directive ∈ block := by
  rw [Tree.allDirectives, List.mem_mergeSort, allDirectives_blocks, ← List.flatten_cons]
  exact List.mem_flatten

theorem pairwise_of_holds {offset : Nat} {slots : List DirectiveSlot} {directives : List Directive}
    (h : DirectiveSlot.Holds offset slots directives) :
    (∀ directive ∈ directives, offset ≤ directive.span.start) ∧
      directives.Pairwise fun first second =>
        decide (first.span.start ≤ second.span.start) = true := by
  induction h with
  | nil => exact ⟨fun _ hmem => absurd hmem List.not_mem_nil, .nil⟩
  | @cons offset slot directive slots directives hspan hcontent hrest ih =>
      obtain ⟨hstart, hpairwise⟩ := ih
      have hwidth : width slot.pieces = width slot.gap + width slot.body := by
        rw [DirectiveSlot.pieces, Piece.width_append]
      have hfirst : directive.span.start = offset + width slot.gap := by rw [hspan]
      constructor
      · intro later hmem
        rcases List.mem_cons.mp hmem with rfl | hmem
        · omega
        · have := hstart later hmem
          omega
      · refine List.pairwise_cons.mpr ⟨fun later hmem => ?_, hpairwise⟩
        have := hstart later hmem
        rw [decide_eq_true_eq]
        omega

theorem allDirectives_eq (h : Laid text mark chunks tree) :
    tree.allDirectives = tree.blocks.flatten := by
  rw [Tree.allDirectives, allDirectives_blocks]
  exact List.mergeSort_of_pairwise (pairwise_of_holds (h.holds_join)).2

theorem outside_eq_separators (h : Laid text mark chunks tree) :
    text.outside 0 (tree.allDirectives.map Directive.span) =
      DirectiveSlot.separators mark (spell (Chunk.join [] chunks).tail)
        (Chunk.join [] chunks).slots := by
  have hholds := h.holds_join
  have hstart : DirectiveSlot.Holds (Text.size [] + mark.size) (Chunk.join [] chunks).slots
      tree.blocks.flatten := by
    rw [Text.size_nil, Nat.zero_add]
    exact hholds
  have houtside := hstart.outside (spell (Chunk.join [] chunks).tail)
  rw [List.nil_append, ← text_eq_of_laid h, ← allDirectives_eq h] at houtside
  exact houtside

variable (h : Fixed policy text tree text' tree' mark chunks chunks')

include h

theorem Fixed.outside_eq :
    text'.outside 0 (tree'.allDirectives.map Directive.span) =
      text.outside 0 (tree.allDirectives.map Directive.span) := by
  obtain ⟨htail, hslots⟩ := Chunk.refilled_join (h.evenly.imp fun _ _ h => h.toRefilled) []
  rw [outside_eq_separators h.laid, outside_eq_separators h.laid', htail]
  exact DirectiveSlot.separators_congr (hslots.imp fun _ _ hslot => hslot.1)

theorem Fixed.size_eq : text'.size = text.size := by
  have hwidth := Chunk.width_all h.evenly
  rw [Piece.width, Piece.width] at hwidth
  rw [h.laid.cut.eq, h.laid'.cut.eq, Text.size_append, Text.size_append, hwidth]

/-- Scope by scope, what one chunk takes from the old text stands in the new one. -/
theorem Fixed.blocks :
    Forall₂ (fun block block' => ∃ chunk', Chunk.Takes policy text block chunk' ∧
      Chunk.Stands text' block' chunk') tree.blocks tree'.blocks := by
  have hstands := h.laid'.holds.stands []
  rw [List.append_nil, ← h.laid'.cut.eq] at hstands
  exact forall₂_comp h.takes hstands.flip

theorem Fixed.perm :
    Forall₂ (fun block block' => (block'.map (Directive.summary text')).Perm
      (block.map (Directive.summary text))) tree.blocks tree'.blocks := by
  refine h.blocks.imp fun block block' hblock => ?_
  obtain ⟨chunk', htakes, before, rest, rfl, hholds⟩ := hblock
  rw [hholds.summary rest]
  exact htakes.perm

theorem Fixed.settled :
    ∀ block' ∈ tree'.blocks, Settled policy text' (block'.map ScopeDirective.ofDirective) := by
  intro block' hblock'
  obtain ⟨block, -, chunk', htakes, before, rest, rfl, hholds⟩ :=
    Read.exists_of_mem_forall₂ h.blocks.flip hblock'
  have hshows := hholds.shows rest
  have hsame : Forall₂ OrderPolicy.Same
      (arranged policy text (block.map ScopeDirective.ofDirective))
      (block'.map ScopeDirective.ofDirective) := by
    refine (forall₂_comp htakes.shows hshows.flip).imp fun source directive hboth => ?_
    obtain ⟨slot, hsource, hdirective⟩ := hboth
    exact ⟨hsource.sortKey.trans hdirective.sortKey.symm,
      hsource.isGlobal.trans hdirective.isGlobal.symm⟩
  refine settled_of_arranged (splitAlike_of_between ?_ ?_) hsame
  · rw [← hsame.length_eq, (arranged_perm policy text _).length_eq]
  · rw [htakes.between, hholds.between rest]

omit h

/-- **Directives change places within their scopes only.** The edits of the fix are accepted and keep
the length of a text. They leave what stands around the directives as it is, the new text has the
namespaces and the notices of the old one, and each scope has the directives it had, in some order. -/
theorem fix_permutes_scopes {id : DocumentId} {path : Path}
    (hroot : (Document.parse CSharp.reader id path text).1.root = .ok tree)
    (policy : OrderPolicy) :
    ∃ edits text' tree',
      (rule policy).fix (Document.parse CSharp.reader id path text).1 = .ok edits ∧
      Edit.applyAll text edits = .ok text' ∧
      text'.size = text.size ∧
      (Document.parse CSharp.reader id path text').1.root = .ok tree' ∧
      (Document.parse CSharp.reader id path text').2 =
        (Document.parse CSharp.reader id path text).2 ∧
      text'.outside 0 (tree'.allDirectives.map Directive.span) =
        text.outside 0 (tree.allDirectives.map Directive.span) ∧
      tree'.skeleton = tree.skeleton ∧
      Forall₂ (fun block block' => (block'.map (Directive.summary text')).Perm
        (block.map (Directive.summary text))) tree.blocks tree'.blocks := by
  obtain ⟨late, hread⟩ := Document.root_parse_eq_ok_iff.mp hroot
  obtain ⟨text', tree', mark, chunks, chunks', hread', hfixed⟩ := exists_fixed hread policy
  refine ⟨edits policy text tree, text', tree', ?_, hfixed.turns.applyAll_eq, hfixed.size_eq, ?_, ?_,
    hfixed.outside_eq, hfixed.skeleton, hfixed.perm⟩
  · rw [Document.parse_eq hread]
    rfl
  · rw [Document.parse_eq hread']
    rfl
  · rw [Document.parse_eq hread, Document.parse_eq hread']

/-- Two directives of a namespace change places, and those of the file stay in front of it. -/
theorem fix_permutes_scopes_of_namespace :
    ∃ tree edits text' tree',
      (Document.parse CSharp.reader ⟨0⟩ ⟨"a.cs"⟩
        "using C;\nnamespace N \x7b using B; using A; \x7d".toList).1.root = .ok tree ∧
      (rule .alphabetical).fix (Document.parse CSharp.reader ⟨0⟩ ⟨"a.cs"⟩
        "using C;\nnamespace N \x7b using B; using A; \x7d".toList).1 = .ok edits ∧
      Edit.applyAll "using C;\nnamespace N \x7b using B; using A; \x7d".toList edits = .ok text' ∧
      (Document.parse CSharp.reader ⟨0⟩ ⟨"a.cs"⟩ text').1.root = .ok tree' ∧
      tree'.skeleton = tree.skeleton := by
  obtain ⟨tree, htree⟩ := Option.isSome_iff_exists.mp
    (by decide +kernel : (CSharp.tree? "using C;\nnamespace N \x7b using B; using A; \x7d".toList).isSome)
  have hroot : (Document.parse CSharp.reader ⟨0⟩ ⟨"a.cs"⟩
      "using C;\nnamespace N \x7b using B; using A; \x7d".toList).1.root = .ok tree :=
    Document.root_parse_eq_ok_iff.mpr ⟨_, CSharp.tree?_eq_some_iff.mp htree⟩
  obtain ⟨edits, text', tree', hfix, happly, -, hroot', -, -, hskeleton, -⟩ :=
    fix_permutes_scopes hroot .alphabetical
  exact ⟨tree, edits, text', tree', hroot, hfix, happly, hroot', hskeleton⟩

end DirectiveOrder

end CSharpTidy
