import CSharpTidy.Proofs.Order.Lines

/-!
# Directives and preprocessor lines

No directive crosses a preprocessor line that stands outside the directives. A line inside a directive
goes where its directive goes. It is uncrossed just where the fix finds its directive in order with all
others of its region.
-/

namespace CSharpTidy

open List (Forall₂)
open Piece (width spell locate)

namespace DirectiveOrder

variable {policy : OrderPolicy} {text text' mark : Text} {tree tree' : Tree}
  {chunks chunks' : List Chunk} {slots : List DirectiveSlot} {offset : Nat}
  {directives : List Directive}

/-- The directives of a scope that change places with each other: none where they are in order, else
those of a region. -/
def groups (policy : OrderPolicy) (text : Text) (directives : List ScopeDirective) :
    List (List ScopeDirective) :=
  if policy.isSorted directives then directives.map fun directive => [directive]
  else regions text directives

theorem groups_flatten (policy : OrderPolicy) (text : Text) (directives : List ScopeDirective) :
    (groups policy text directives).flatten = directives := by
  unfold groups
  split
  · rw [← List.flatMap_def, List.flatMap_singleton']
  · exact regions_flatten text directives

theorem arranged_eq_flatten (policy : OrderPolicy) (text : Text) (directives : List ScopeDirective) :
    arranged policy text directives =
      ((groups policy text directives).map fun group => group.mergeSort policy.sortsBefore).flatten := by
  unfold arranged groups
  split
  · have hsingle : ((fun group => group.mergeSort policy.sortsBefore) ∘
        fun directive : ScopeDirective => [directive]) = fun directive => [directive] :=
      funext fun directive => List.mergeSort_singleton directive
    rw [List.map_map, hsingle, ← List.flatMap_def, List.flatMap_singleton']
  · rw [List.flatMap_def]

theorem grouped_regions {directives : List ScopeDirective}
    (htokenize : ∀ slot ∈ slots, tokenize (spell slot.gap) = .ok (locate 0 slot.gap))
    (hlength : slots.length = directives.length)
    (hbetween : DirectiveSlot.between text directives = slots.tail.map fun slot => spell slot.gap) :
    Grouped (slots.map fun slot => Piece.lines slot.gap) (regions text directives) := by
  fun_induction regions text directives generalizing slots with
  | case1 =>
      obtain rfl := List.eq_nil_of_length_eq_zero hlength
      exact .nil
  | case2 directive =>
      obtain ⟨slot, rfl⟩ := List.length_eq_one_iff.mp hlength
      exact .cons (fun lines hmem => absurd hmem List.not_mem_nil) rfl .nil
  | case3 first second rest hnone _ =>
      obtain ⟨region, others, hfound⟩ := exists_first_region text second rest
      -- the region of the second directive is not missing
      rw [hnone] at hfound
      cases hfound
  | case4 first second rest region others hfound hsplit ih =>
      obtain ⟨slot, slots, rfl⟩ := List.exists_of_length_succ _ hlength
      obtain ⟨next, slots, rfl⟩ := List.exists_of_length_succ _ (Nat.succ.inj hlength)
      rw [hfound] at ih
      rw [DirectiveSlot.between] at hbetween
      obtain ⟨-, hothers⟩ := List.cons.inj hbetween
      exact .cons (fun lines hmem => absurd hmem List.not_mem_nil) rfl
        (ih (fun slot hmem => htokenize slot (List.mem_cons_of_mem _ hmem)) (by simpa using hlength)
          hothers)
  | case5 first second rest region others hfound hsplit ih =>
      obtain ⟨slot, slots, rfl⟩ := List.exists_of_length_succ _ hlength
      obtain ⟨next, slots, rfl⟩ := List.exists_of_length_succ _ (Nat.succ.inj hlength)
      rw [hfound] at ih
      rw [DirectiveSlot.between] at hbetween
      obtain ⟨hgap, hothers⟩ := List.cons.inj hbetween
      have hrest := ih (fun slot hmem => htokenize slot (List.mem_cons_of_mem _ hmem))
        (by simpa using hlength) hothers
      -- the two are not split, so the gap between them has no line and joins the first group
      have hempty : Piece.lines next.gap = [] := by
        rw [isSplit, hgap, htokenize next (by simp)] at hsplit
        rw [← Piece.lexeme_lines_locate 0, Token.lines, List.map_eq_nil_iff, List.filter_eq_nil_iff]
        simpa using hsplit
      rw [List.map_cons, hempty] at hrest
      rw [List.map_cons, List.map_cons, hempty]
      generalize slots.map (fun slot => Piece.lines slot.gap) = gaps at hrest ⊢
      cases hrest with
      | @cons _ inner gaps _ group _ hinner hsame hafter =>
          have hmore : ∀ lines ∈ [] :: inner, lines = [] := by simpa using hinner
          exact .cons hmore (congrArg Nat.succ hsame) hafter

theorem grouped_of_stands {block : List Directive} {chunk : Chunk} (h : Chunk.Stands text block chunk)
    (htokenize : ∀ slot ∈ chunk.slots, tokenize (spell slot.gap) = .ok (locate 0 slot.gap))
    (policy : OrderPolicy) :
    Grouped (chunk.slots.map fun slot => Piece.lines slot.gap)
      (groups policy text (block.map ScopeDirective.ofDirective)) := by
  obtain ⟨before, rest, rfl, hholds⟩ := h
  have hlength := (hholds.shows rest).length_eq
  unfold groups
  split
  · exact grouped_singletons (by rw [hlength, List.length_map])
  · exact grouped_regions htokenize hlength.symm (hholds.between rest)

theorem grouped_prepend {α : Type} {chunk : Chunk} {parts : List (List α)}
    (h : Grouped (chunk.slots.map fun slot => Piece.lines slot.gap) parts) (lead : List Piece) :
    Grouped ((Read.prepend lead chunk).slots.map fun slot => Piece.lines slot.gap) parts := by
  obtain ⟨slots, last⟩ := chunk
  cases slots with
  | nil => exact h
  | cons slot slots =>
      simp only [Read.prepend, List.map_cons] at h ⊢
      generalize slots.map (fun slot => Piece.lines slot.gap) = gaps at h ⊢
      cases h with
      | cons hinner hlength hrest => exact .cons hinner hlength hrest

/-- What stands between scopes does not matter to their groups. -/
theorem grouped_join {α : Type} {parts : List (List (List α))}
    (h : Forall₂ (fun part (chunk : Chunk) =>
      Grouped (chunk.slots.map fun slot => Piece.lines slot.gap) part) parts chunks)
    (lead : List Piece) :
    Grouped ((Chunk.join lead chunks).slots.map fun slot => Piece.lines slot.gap) parts.flatten := by
  induction h generalizing lead with
  | nil => exact .nil
  | cons hpart _ ih =>
      rw [Chunk.join, List.map_append, List.flatten_cons]
      exact (grouped_prepend hpart lead).append (ih _)

/-! ## Which lines are crossed -/

def allGroups (policy : OrderPolicy) (text : Text) (tree : Tree) : List (List ScopeDirective) :=
  tree.blocks.flatMap fun block => groups policy text (block.map ScopeDirective.ofDirective)

/-- A scope is in order, or each of its directives with a preprocessor line inside stands in order
with all others of its region. -/
def Pinned (policy : OrderPolicy) (text : Text) (tokens : List Token)
    (directives : List ScopeDirective) : Prop :=
  policy.isSorted directives = true ∨ ∀ region ∈ regions text directives,
    region.Pairwise fun first second =>
      Token.splits tokens first.span.start first.span.stop = true ∨
          Token.splits tokens second.span.start second.span.stop = true →
        policy.sortsBefore first second = true

instance (policy : OrderPolicy) (text : Text) (tokens : List Token)
    (directives : List ScopeDirective) : Decidable (Pinned policy text tokens directives) :=
  inferInstanceAs (Decidable (_ ∨ _))

theorem pinned_iff {tokens : List Token} {directives : List ScopeDirective} :
    Pinned policy text tokens directives ↔ ∀ group ∈ groups policy text directives,
      group.Pairwise fun first second =>
        Token.splits tokens first.span.start first.span.stop = true ∨
            Token.splits tokens second.span.start second.span.stop = true →
          policy.sortsBefore first second = true := by
  unfold Pinned groups
  split
  · next hsorted =>
      refine ⟨fun _ group hmem => ?_, fun _ => .inl hsorted⟩
      obtain ⟨directive, -, rfl⟩ := List.mem_map.mp hmem
      exact List.pairwise_singleton ..
  · next hsorted =>
      exact ⟨fun h => h.resolve_left hsorted, .inr⟩

theorem allGroups_flatten (policy : OrderPolicy) (text : Text) (tree : Tree) :
    (allGroups policy text tree).flatten = tree.blocks.flatten.map ScopeDirective.ofDirective := by
  rw [allGroups]
  induction tree.blocks with
  | nil => rfl
  | cons block blocks ih =>
      rw [List.flatMap_cons, List.flatten_append, groups_flatten, ih, List.flatten_cons,
        List.map_append]

theorem arrangedAll_eq (policy : OrderPolicy) (text : Text) (tree : Tree) :
    arrangedAll policy text tree.blocks =
      ((allGroups policy text tree).map fun group => group.mergeSort policy.sortsBefore).flatten := by
  rw [arrangedAll, allGroups]
  induction tree.blocks with
  | nil => rfl
  | cons block blocks ih =>
      rw [List.flatMap_cons, List.flatMap_cons, ih, List.map_append, List.flatten_append,
        arranged_eq_flatten]

theorem grouped_of_laid (h : Laid text mark chunks tree)
    (haliases : ∀ chunk ∈ chunks, ∀ slot ∈ chunk.slots, ∀ offset,
      Read.Aliases (Piece.code offset slot.gap)) (policy : OrderPolicy) :
    Grouped ((Chunk.join [] chunks).slots.map fun slot => Piece.lines slot.gap)
      (allGroups policy text tree) := by
  have hstands := h.holds.stands []
  rw [List.append_nil, ← h.cut.eq] at hstands
  obtain ⟨hlength, hzip⟩ := List.forall₂_iff_zip.mp hstands
  rw [allGroups, List.flatMap_def]
  refine grouped_join ?_ []
  rw [List.forall₂_map_left_iff]
  refine List.forall₂_iff_zip.mpr ⟨hlength, fun hmem => ?_⟩
  exact grouped_of_stands (hzip hmem)
    (tokenize_gap_of_laid h haliases _ (List.of_mem_zip hmem).2) policy

theorem sources_eq {directives : List ScopeDirective}
    (h : Forall₂ (DirectiveSlot.Shows text) directives slots) :
    (slots.map fun slot => spell slot.body) =
      directives.map fun directive => directive.span.slice text := by
  induction h with
  | nil => rfl
  | cons hshow _ ih => rw [List.map_cons, List.map_cons, hshow.slice, ih]

/-- The fix leaves the lines of a text uncrossed where the sorting of each group does. -/
theorem Fixed.uncrossed_iff (h : Fixed policy text tree text' tree' mark chunks chunks')
    (inner : Bool) :
    Uncrossed
        (standings text tree.allDirectives
          ((Token.lines (locate mark.size (Chunk.all chunks))).filter fun line =>
            inner || !encloses tree.allDirectives line))
        (standings text' tree'.allDirectives
          ((Token.lines (locate mark.size (Chunk.all chunks'))).filter fun line =>
            inner || !encloses tree'.allDirectives line)) ↔
      ∀ group ∈ allGroups policy text tree,
        Steady (fun source => if inner then source.preprocessorLines else []) [] []
          (group.map fun directive => directive.span.slice text)
          ((group.mergeSort policy.sortsBefore).map fun directive => directive.span.slice text) := by
  obtain ⟨htail, hslots⟩ := Chunk.refilled_join (h.evenly.imp fun _ _ h => h.toRefilled) []
  -- both texts have the same gaps and tail, and their slots the sources of the groups
  have hgaps : ((Chunk.join [] chunks').slots.map fun slot => Piece.lines slot.gap) =
      (Chunk.join [] chunks).slots.map fun slot => Piece.lines slot.gap :=
    Read.map_eq_of_forall₂ (hslots.imp fun _ _ hslot => congrArg Piece.lines hslot.1)
  have hsources := sources_eq (text_eq_of_laid h.laid ▸
    h.laid.holds_join.shows (spell (Chunk.join [] chunks).tail))
  have hsources' := sources_eq (shows_join h.takes)
  rw [← allGroups_flatten policy text tree, List.map_flatten] at hsources
  rw [arrangedAll_eq, List.map_flatten, List.map_map] at hsources'
  have hperm : Forall₂ List.Perm
      ((allGroups policy text tree).map (List.map fun directive => directive.span.slice text))
      ((allGroups policy text tree).map ((List.map fun directive => directive.span.slice text) ∘
        fun group => group.mergeSort policy.sortsBefore)) := by
    rw [List.forall₂_map_left_iff, List.forall₂_map_right_iff]
    exact List.forall₂_same.mpr fun group _ => (List.mergeSort_perm group _).symm.map _
  have hgrouped := (grouped_of_laid h.laid h.aliases policy).map
    fun directive => directive.span.slice text
  rw [standings_of_laid h.laid, standings_of_laid h.laid', htail, hgaps, hsources, hsources',
    uncrossed_standing_iff (hgrouped.clear hperm (.refl [])) hgrouped.length_eq
      (List.Perm.flatten_congr hperm).length_eq rfl (List.Perm.flatten_congr hperm),
    steady_flatten_iff hperm, List.forall₂_map_left_iff, List.forall₂_map_right_iff,
    List.forall₂_same]
  simp

theorem exists_body_of_holds {directive : Directive}
    (h : DirectiveSlot.Holds offset slots directives) (hmem : directive ∈ directives) :
    ∃ front slot behind, DirectiveSlot.all slots = front ++ (slot.body ++ behind) ∧ slot ∈ slots ∧
      directive.span = ⟨offset + width front, offset + width front + width slot.body⟩ ∧
        directive.content = slot.content := by
  induction h with
  | nil => cases hmem
  | @cons offset slot first slots directives hspan hcontent hrest ih =>
      rcases List.mem_cons.mp hmem with rfl | hmem
      · refine ⟨slot.gap, slot, DirectiveSlot.all slots, ?_, List.mem_cons_self, hspan, hcontent⟩
        rw [Read.slot_all_cons, DirectiveSlot.pieces, List.append_assoc]
      · obtain ⟨front, found, behind, hall, hfound, hspan', hcontent'⟩ := ih hmem
        refine ⟨slot.pieces ++ front, found, behind, ?_, List.mem_cons_of_mem _ hfound, ?_, hcontent'⟩
        · rw [Read.slot_all_cons, hall, List.append_assoc]
        · rw [hspan', Piece.width_append, ← Nat.add_assoc]

theorem exists_slot_of_laid {directive : Directive} (h : Laid text mark chunks tree)
    (hmem : directive ∈ tree.blocks.flatten) :
    ∃ slot : DirectiveSlot, slot.Reads ∧ directive.span.slice text = spell slot.body ∧
      directive.content = slot.content ∧
        (Token.splits (locate mark.size (Chunk.all chunks)) directive.span.start
          directive.span.stop = true ↔ Piece.lines slot.body ≠ []) := by
  obtain ⟨front, slot, behind, hall, hslot, hspan, hcontent⟩ :=
    exists_body_of_holds h.holds_join hmem
  have hpieces := Chunk.join_pieces [] chunks
  rw [List.nil_append, Chunk.pieces, hall, List.append_assoc, List.append_assoc] at hpieces
  have hscanned := h.cut.scanned
  rw [← hpieces] at hscanned
  refine ⟨slot, Chunk.forall_slots_join h.reads [] slot hslot, ?_, hcontent, ?_⟩
  · have hslice := Text.slice_append (mark ++ spell front) (spell slot.body)
      (spell (behind ++ (Chunk.join [] chunks).tail))
    rw [List.append_assoc, ← Piece.spell_append, ← Piece.spell_append, hpieces, ← h.cut.eq,
      Text.size_append] at hslice
    rw [hspan]
    exact hslice
  · rw [Piece.lines_ne_nil_iff, ← Piece.splits_locate hscanned mark.size, hpieces, hspan]

theorem exists_slot_of_mem_group {group : List ScopeDirective} {directive : ScopeDirective}
    (h : Laid text mark chunks tree) (hgroup : group ∈ allGroups policy text tree)
    (hdirective : directive ∈ group) :
    ∃ slot : DirectiveSlot, slot.Reads ∧ directive.span.slice text = spell slot.body ∧
      directive.sortKey = slot.content.1 ∧ directive.isGlobal = slot.content.2.2 ∧
        (Token.splits (locate mark.size (Chunk.all chunks)) directive.span.start
          directive.span.stop = true ↔ Piece.lines slot.body ≠ []) := by
  have hmem := List.mem_flatten_of_mem hgroup hdirective
  rw [allGroups_flatten] at hmem
  obtain ⟨source, hsource, rfl⟩ := List.mem_map.mp hmem
  obtain ⟨slot, hreads, hslice, hcontent, hlines⟩ := exists_slot_of_laid h hsource
  exact ⟨slot, hreads, hslice, congrArg Prod.fst hcontent,
    congrArg (fun content => content.2.2) hcontent, hlines⟩

/-- Sorting a group leaves its lines uncrossed just where each directive with a line inside stands in
order with all others. -/
theorem steady_group_iff {group : List ScopeDirective} (h : Laid text mark chunks tree)
    (hgroup : group ∈ allGroups policy text tree) :
    Steady Text.preprocessorLines [] [] (group.map fun directive => directive.span.slice text)
        ((group.mergeSort policy.sortsBefore).map fun directive => directive.span.slice text) ↔
      group.Pairwise fun first second =>
        Token.splits (locate mark.size (Chunk.all chunks)) first.span.start first.span.stop = true ∨
            Token.splits (locate mark.size (Chunk.all chunks)) second.span.start
              second.span.stop = true →
          policy.sortsBefore first second = true := by
  have hlines : ∀ directive ∈ group, (directive.span.slice text).preprocessorLines ≠ [] ↔
      Token.splits (locate mark.size (Chunk.all chunks)) directive.span.start
        directive.span.stop = true := by
    intro directive hdirective
    obtain ⟨slot, hreads, hslice, -, -, hlines⟩ := exists_slot_of_mem_group h hgroup hdirective
    rw [hslice, hreads.preprocessorLines_eq, hlines]
  rw [steady_mergeSort_iff OrderPolicy.sortsBefore_trans OrderPolicy.sortsBefore_total]
  · refine List.Pairwise.iff_of_mem fun {first second} hfirst hsecond => ?_
    rw [hlines first hfirst, hlines second hsecond]
  · -- directives with one source say the same, and the order does not tell them apart
    intro first hfirst second hsecond hsame
    obtain ⟨slot, hreads, hslice, hkey, hglobal, -⟩ := exists_slot_of_mem_group h hgroup hfirst
    obtain ⟨slot', hreads', hslice', hkey', hglobal', -⟩ :=
      exists_slot_of_mem_group h hgroup hsecond
    have hcontent := hreads.content_eq hreads' (by rw [← hslice, ← hslice', hsame])
    have hsame : OrderPolicy.Same first second :=
      ⟨by rw [hkey, hkey', hcontent], by rw [hglobal, hglobal', hcontent]⟩
    have htotal : (policy.sortsBefore first first || policy.sortsBefore first first) = true :=
      OrderPolicy.sortsBefore_total first first
    rw [Bool.or_self] at htotal
    rwa [← OrderPolicy.sortsBefore_same ⟨rfl, rfl⟩ hsame]

/-- Sorting the groups of all scopes leaves their lines uncrossed just where the scopes are pinned. -/
theorem steady_groups_iff (h : Laid text mark chunks tree) (policy : OrderPolicy) :
    (∀ group ∈ allGroups policy text tree,
      Steady Text.preprocessorLines [] []
        (group.map fun directive => directive.span.slice text)
        ((group.mergeSort policy.sortsBefore).map fun directive => directive.span.slice text)) ↔
      ∀ block ∈ tree.blocks, Pinned policy text (locate mark.size (Chunk.all chunks))
        (block.map ScopeDirective.ofDirective) := by
  simp only [pinned_iff]
  constructor
  · intro hsteady block hblock group hmem
    have hgroups : group ∈ allGroups policy text tree := List.mem_flatMap.mpr ⟨block, hblock, hmem⟩
    exact (steady_group_iff h hgroups).mp (hsteady group hgroups)
  · intro hpinned group hmem
    obtain ⟨block, hblock, hgroups⟩ := List.mem_flatMap.mp hmem
    exact (steady_group_iff h hmem).mpr (hpinned block hblock group hgroups)

/-- **Which preprocessor lines directives cross.** No directive crosses a preprocessor line that
stands outside all of them. Counting the lines inside directives, too, the fix keeps the lines of a
text in order, each behind the same directives, just where every directive with a line inside already
stands in order with all others of its region, or its whole scope is in order. -/
theorem fix_crosses_no_line_iff {id : DocumentId} {path : Path}
    (hroot : (Document.parse CSharp.reader id path text).1.root = .ok tree)
    (policy : OrderPolicy) :
    ∃ edits text' tree' tokens tokens',
      (rule policy).fix (Document.parse CSharp.reader id path text).1 = .ok edits ∧
      Edit.applyAll text edits = .ok text' ∧
      (Document.parse CSharp.reader id path text').1.root = .ok tree' ∧
      tokenize text = .ok tokens ∧ tokenize text' = .ok tokens' ∧
      Uncrossed
        (standings text tree.allDirectives
          ((Token.lines tokens).filter fun line => !encloses tree.allDirectives line))
        (standings text' tree'.allDirectives
          ((Token.lines tokens').filter fun line => !encloses tree'.allDirectives line)) ∧
      (Uncrossed (standings text tree.allDirectives (Token.lines tokens))
          (standings text' tree'.allDirectives (Token.lines tokens')) ↔
        ∀ block ∈ tree.blocks, Pinned policy text tokens (block.map ScopeDirective.ofDirective)) := by
  obtain ⟨late, hread⟩ := Document.root_parse_eq_ok_iff.mp hroot
  obtain ⟨text', tree', mark, chunks, chunks', hread', hfixed⟩ := exists_fixed hread policy
  have houter := hfixed.uncrossed_iff false
  have hall := hfixed.uncrossed_iff true
  simp only [Bool.false_or, Bool.true_or, List.filter_true, if_true, Bool.false_eq_true, if_false]
    at houter hall
  refine ⟨edits policy text tree, text', tree', _, _, ?_, hfixed.turns.applyAll_eq, ?_,
    hfixed.laid.cut.tokenize_eq, hfixed.laid'.cut.tokenize_eq, houter.mpr fun group _ => ?_,
    hall.trans (steady_groups_iff hfixed.laid policy)⟩
  · rw [Document.parse_eq hread]
    rfl
  · rw [Document.parse_eq hread']
    rfl
  · exact steady_of_forall_eq_nil (fun _ _ => rfl) fun _ _ => rfl

/-- Two directives change places in front of a line, and the line inside a third stays where it is. -/
theorem fix_crosses_no_line_of_pinned :
    ∃ tree edits text' tree' tokens tokens',
      (Document.parse CSharp.reader ⟨0⟩ ⟨"a.cs"⟩
        "using C;\nusing A;\n#if X\nusing\n#if Y\nB;\nusing D;\n".toList).1.root = .ok tree ∧
      (rule .alphabetical).fix (Document.parse CSharp.reader ⟨0⟩ ⟨"a.cs"⟩
        "using C;\nusing A;\n#if X\nusing\n#if Y\nB;\nusing D;\n".toList).1 = .ok edits ∧
      Edit.applyAll "using C;\nusing A;\n#if X\nusing\n#if Y\nB;\nusing D;\n".toList edits =
        .ok text' ∧
      (Document.parse CSharp.reader ⟨0⟩ ⟨"a.cs"⟩ text').1.root = .ok tree' ∧
      tokenize "using C;\nusing A;\n#if X\nusing\n#if Y\nB;\nusing D;\n".toList = .ok tokens ∧
      tokenize text' = .ok tokens' ∧
      Uncrossed
        (standings "using C;\nusing A;\n#if X\nusing\n#if Y\nB;\nusing D;\n".toList tree.allDirectives
          (Token.lines tokens))
        (standings text' tree'.allDirectives (Token.lines tokens')) := by
  obtain ⟨tree, htree⟩ := Option.isSome_iff_exists.mp (by decide +kernel :
    (CSharp.tree? "using C;\nusing A;\n#if X\nusing\n#if Y\nB;\nusing D;\n".toList).isSome)
  have hroot : (Document.parse CSharp.reader ⟨0⟩ ⟨"a.cs"⟩
      "using C;\nusing A;\n#if X\nusing\n#if Y\nB;\nusing D;\n".toList).1.root = .ok tree :=
    Document.root_parse_of_tree? htree ⟨0⟩ ⟨"a.cs"⟩
  obtain ⟨edits, text', tree', tokens, tokens', hfix, happly, hroot', htokens, htokens', -, hall⟩ :=
    fix_crosses_no_line_iff hroot .alphabetical
  have hcheck : (CSharp.tree? "using C;\nusing A;\n#if X\nusing\n#if Y\nB;\nusing D;\n".toList).all
      (fun tree =>
        (tokenize "using C;\nusing A;\n#if X\nusing\n#if Y\nB;\nusing D;\n".toList).toOption.all
          fun tokens => tree.namespaces.isEmpty && decide (Pinned .alphabetical
          "using C;\nusing A;\n#if X\nusing\n#if Y\nB;\nusing D;\n".toList tokens
            (tree.directives.map ScopeDirective.ofDirective))) = true := by decide +kernel
  rw [htree, htokens] at hcheck
  obtain ⟨hnone, hpinned⟩ := Bool.and_eq_true_iff.mp hcheck
  refine ⟨tree, edits, text', tree', tokens, tokens', hroot, hfix, happly, hroot', htokens, htokens',
    hall.mpr fun block hblock => ?_⟩
  rw [Tree.blocks, List.isEmpty_iff.mp hnone, Namespace.blocks, List.mem_singleton] at hblock
  rw [hblock]
  exact of_decide_eq_true hpinned

/-- A directive goes in front of another with a line inside, and so in front of the line. -/
theorem fix_crosses_line_inside :
    ∃ tree edits text' tree' tokens tokens',
      (Document.parse CSharp.reader ⟨0⟩ ⟨"a.cs"⟩ "using\n#if X\nB;\nusing A;\n".toList).1.root =
        .ok tree ∧
      (rule .alphabetical).fix (Document.parse CSharp.reader ⟨0⟩ ⟨"a.cs"⟩
        "using\n#if X\nB;\nusing A;\n".toList).1 = .ok edits ∧
      Edit.applyAll "using\n#if X\nB;\nusing A;\n".toList edits = .ok text' ∧
      (Document.parse CSharp.reader ⟨0⟩ ⟨"a.cs"⟩ text').1.root = .ok tree' ∧
      tokenize "using\n#if X\nB;\nusing A;\n".toList = .ok tokens ∧ tokenize text' = .ok tokens' ∧
      ¬Uncrossed
        (standings "using\n#if X\nB;\nusing A;\n".toList tree.allDirectives (Token.lines tokens))
        (standings text' tree'.allDirectives (Token.lines tokens')) := by
  obtain ⟨tree, htree⟩ := Option.isSome_iff_exists.mp
    (by decide +kernel : (CSharp.tree? "using\n#if X\nB;\nusing A;\n".toList).isSome)
  have hread := CSharp.tree?_eq_some_iff.mp htree
  obtain ⟨text', tree', mark, chunks, chunks', hread', hfixed⟩ := exists_fixed hread .alphabetical
  have htokens := hfixed.laid.cut.tokenize_eq
  have hcheck : (CSharp.tree? "using\n#if X\nB;\nusing A;\n".toList).all
      (fun tree => (tokenize "using\n#if X\nB;\nusing A;\n".toList).toOption.all
        fun tokens => decide (¬Pinned .alphabetical "using\n#if X\nB;\nusing A;\n".toList tokens
          (tree.directives.map ScopeDirective.ofDirective))) = true := by decide +kernel
  rw [htree, htokens] at hcheck
  have hall := hfixed.uncrossed_iff true
  simp only [Bool.true_or, List.filter_true, if_true] at hall
  refine ⟨tree, edits .alphabetical _ tree, text', tree', _, _,
    Document.root_parse_of_tree? htree ⟨0⟩ ⟨"a.cs"⟩, ?_, hfixed.turns.applyAll_eq,
    Document.root_parse_eq_ok_iff.mpr ⟨_, hread'⟩, htokens, hfixed.laid'.cut.tokenize_eq,
    fun huncrossed => ?_⟩
  · rw [Document.parse_eq hread]
    rfl
  · have hpinned := (steady_groups_iff hfixed.laid .alphabetical).mp (hall.mp huncrossed)
    exact of_decide_eq_true hcheck (hpinned tree.directives List.mem_cons_self)

end DirectiveOrder

end CSharpTidy
