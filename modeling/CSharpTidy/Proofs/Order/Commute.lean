import CSharpTidy.Proofs.Format.Parts
import CSharpTidy.Proofs.Order.Fix
import CSharpTidy.Proofs.Order.Between

/-!
# Sorting and formatting commute

The formatter works slot by slot, and the fix moves what stands in slots. So a formatted text has the
slots of the old one, each formatted, and its scopes are arranged as they were. What the fix puts into a
slot of the formatted text is what the formatter makes of the directive that the fix puts there first.
The line end that is added to a file is the same too, since directives neither begin nor end with one.
-/

namespace CSharpTidy

open List (Forall₂)
open Piece (spell width tokens locate Enclosed)

namespace DirectiveOrder

open DirectiveSlot (Shows)
open Spacing (FormattedSlot)

variable {policy : OrderPolicy} {options : FormatSettings} {text text' mark : Text} {late : List Text}
  {tree tree' : Tree} {offset offset' : Nat} {first second : Token} {index index' : Nat}
  {found : List Token} {front front' body body' back back' pieces pieces' : List Piece}
  {directive directive' : Directive} {directives directives' : List Directive}
  {slots slots' : List DirectiveSlot}

/-! ## Where formatted directives stand -/

theorem Ordered.index_eq_of_start (h : Ordered found) (hfirst : found[index]? = some first)
    (hsecond : found[index']? = some second) (hstart : first.start = second.start) :
    index = index' := by
  have hlt := h.1 first (List.mem_of_getElem? hfirst)
  have hlt' := h.1 second (List.mem_of_getElem? hsecond)
  have hforth := h.stop_le_start_iff hfirst hsecond
  have hback := h.stop_le_start_iff hsecond hfirst
  omega

theorem Ordered.index_eq_of_stop (h : Ordered found) (hfirst : found[index]? = some first)
    (hsecond : found[index']? = some second) (hstop : first.stop = second.stop) :
    index = index' := by
  have hlt := h.1 first (List.mem_of_getElem? hfirst)
  have hlt' := h.1 second (List.mem_of_getElem? hsecond)
  have hforth := h.stop_le_start_iff hfirst hsecond
  have hback := h.stop_le_start_iff hsecond hfirst
  omega

theorem getElem?_locate (offset : Nat) (front : List Piece) (kind : TokenKind) (lexeme : Text)
    (back : List Piece) :
    (locate offset (front ++ .token kind lexeme :: back))[(tokens front).length]? =
      some ⟨kind, lexeme, offset + width front⟩ := by
  have hlength : (tokens front).length = (locate offset front).length := by
    rw [← Piece.map_locate offset, List.length_map]
  rw [Piece.locate_append, hlength, List.getElem?_append_right (Nat.le_refl _), Nat.sub_self]
  rfl

theorem stop_closing (offset : Nat) (front before : List Piece) :
    (Token.mk (.punctuation ';') [';'] (offset + width (front ++ before))).stop =
      offset + width front + width (before ++ [.token (.punctuation ';') [';']]) := by
  rw [Token.stop, Piece.width_append, Piece.width_append]
  exact (by omega : offset + (width front + width before) + 1 =
    offset + width front + (width before + 1))

/-- A directive that takes up the body of a slot does so when both are formatted. -/
theorem span_formatted (hordered : Ordered (locate offset pieces))
    (hmoved : Directive.Moved (Token.Counterpart (locate offset pieces) (locate offset' pieces'))
      directive directive')
    (hpieces : pieces = front ++ (body ++ back)) (hpieces' : pieces' = front' ++ (body' ++ back'))
    (henclosed : Enclosed body) (henclosed' : Enclosed body')
    (hfront : (tokens front').length = (tokens front).length)
    (hbody : (tokens body').length = (tokens body).length)
    (hspan : directive.span = ⟨offset + width front, offset + width front + width body⟩) :
    directive'.span = ⟨offset' + width front', offset' + width front' + width body'⟩ := by
  obtain ⟨first, first', last, last', ⟨-, index, hfirst, hfirst'⟩, ⟨-, index', hlast, hlast'⟩,
    hdirective, hdirective'⟩ := hmoved.span
  rw [hdirective, Span.mk.injEq] at hspan
  rw [hdirective', Span.mk.injEq]
  constructor
  · -- the first tokens have the same index, as the pieces in front have as many tokens
    obtain ⟨c, word, after, hopens, -⟩ := henclosed.opens
    obtain ⟨c', word', after', hopens', -⟩ := henclosed'.opens
    have hplace := getElem?_locate offset front .identifier (c :: word) (after ++ back)
    have hplace' := getElem?_locate offset' front' .identifier (c' :: word') (after' ++ back')
    rw [← List.cons_append, ← hopens, ← hpieces] at hplace
    rw [← List.cons_append, ← hopens', ← hpieces', hfront] at hplace'
    obtain rfl := hordered.index_eq_of_start hfirst hplace hspan.1
    rw [hfirst', Option.some.injEq] at hplace'
    rw [hplace']
  · -- and so have the closing semicolons
    obtain ⟨before, hcloses⟩ := henclosed.closes
    obtain ⟨before', hcloses'⟩ := henclosed'.closes
    have hplace := getElem?_locate offset (front ++ before) (.punctuation ';') [';'] back
    have hplace' := getElem?_locate offset' (front' ++ before') (.punctuation ';') [';'] back'
    have hcount : (tokens (front' ++ before')).length = (tokens (front ++ before)).length := by
      rw [hcloses, hcloses', Piece.length_tokens_append, Piece.length_tokens_append] at hbody
      rw [Piece.length_tokens_append, Piece.length_tokens_append, hfront,
        Nat.add_right_cancel hbody]
    rw [← List.singleton_append, List.append_assoc, ← List.append_assoc before, ← hcloses,
      ← hpieces] at hplace
    rw [← List.singleton_append, List.append_assoc, ← List.append_assoc before', ← hcloses',
      ← hpieces', hcount] at hplace'
    obtain rfl := hordered.index_eq_of_stop hlast hplace
      (hspan.2.trans (by rw [stop_closing, hcloses]))
    rw [hlast', Option.some.injEq] at hplace'
    rw [hplace', stop_closing, hcloses']

theorem holds_formatted (front front' : List Piece) (hordered : Ordered (locate mark.size pieces))
    (hslots : Forall₂ (FormattedSlot options) slots slots')
    (hholds : DirectiveSlot.Holds (mark.size + width front) slots directives)
    (hmoved : Forall₂ (Directive.Moved
      (Token.Counterpart (locate mark.size pieces) (locate mark.size pieces'))) directives directives')
    (hpieces : pieces = front ++ (DirectiveSlot.all slots ++ back))
    (hpieces' : pieces' = front' ++ (DirectiveSlot.all slots' ++ back'))
    (hfront : (tokens front').length = (tokens front).length) :
    DirectiveSlot.Holds (mark.size + width front') slots' directives' := by
  induction hslots generalizing front front' directives directives' with
  | nil =>
      cases hholds
      cases hmoved
      exact .nil
  | @cons slot slot' slots slots' hslot _ ih =>
      cases hholds with
      | @cons _ _ directive _ directives hspan hcontent hrest =>
          cases hmoved with
          | @cons _ directive' _ directives' hdirective hdirectives =>
              rw [DirectiveSlot.all_cons_append] at hpieces hpieces'
              -- what the induction carries is how many tokens stand in front of the slots
              have hgap : (tokens (front' ++ slot'.gap)).length = (tokens (front ++ slot.gap)).length := by
                rw [Piece.length_tokens_append, Piece.length_tokens_append, hfront, hslot.gapTokens]
              have hwhole : (tokens (front' ++ slot'.pieces)).length =
                  (tokens (front ++ slot.pieces)).length := by
                rw [DirectiveSlot.pieces, DirectiveSlot.pieces, ← List.append_assoc,
                  ← List.append_assoc, Piece.length_tokens_append,
                  Piece.length_tokens_append _ slot.body, hgap, hslot.bodyTokens]
              refine .cons ?_ ?_ ?_
              · rw [Nat.add_assoc, ← Piece.width_append]
                rw [Nat.add_assoc, ← Piece.width_append] at hspan
                exact span_formatted hordered hdirective (by rw [hpieces, List.append_assoc])
                  (by rw [hpieces', List.append_assoc]) hslot.enclosed hslot.enclosed' hgap
                  hslot.bodyTokens hspan
              · rw [hslot.content, ← hcontent, Directive.content, Directive.content, hdirective.name,
                  hdirective.kind, hdirective.isGlobal]
              · rw [Nat.add_assoc, ← Piece.width_append] at hrest ⊢
                refine ih _ _ hrest hdirectives ?_ ?_ hwhole
                · rw [hpieces, DirectiveSlot.pieces, List.append_assoc, List.append_assoc]
                · rw [hpieces', DirectiveSlot.pieces, List.append_assoc, List.append_assoc]

/-! ## What the fix puts where -/

/-- A directive stands in a slot of one text, and another in that slot of the formatted text. -/
def Follows (options : FormatSettings) (text text' : Text)
    (source source' : ScopeDirective) : Prop :=
  ∃ slot slot', Shows text source slot ∧ Shows text' source' slot' ∧
    FormattedSlot options slot slot'

theorem Follows.same {source source' : ScopeDirective} (h : Follows options text text' source source') :
    OrderPolicy.Same source source' := by
  obtain ⟨slot, slot', hshows, hshows', hslot⟩ := h
  exact ⟨by rw [hshows.sortKey, hshows'.sortKey, hslot.content],
    by rw [hshows.isGlobal, hshows'.isGlobal, hslot.content]⟩

/-- A directive of the formatted text is what the formatter makes of any slot its source would fill. -/
theorem Follows.shows {source source' : ScopeDirective} {slot slot' : DirectiveSlot}
    (h : Follows options text text' source source') (hshows : Shows text source slot)
    (hslot : FormattedSlot options slot slot') : Shows text' source' slot' := by
  obtain ⟨hkey, hglobal⟩ := h.same
  obtain ⟨other, other', hother, hother', hformatted⟩ := h
  refine ⟨?_, ?_, ?_⟩
  · rw [hother'.slice]
    exact hformatted.spell_body_congr hslot (hother.slice.symm.trans hshows.slice)
  · rw [← hkey, hshows.sortKey, hslot.content]
  · rw [← hglobal, hshows.isGlobal, hslot.content]

theorem bodies_perm (hshows : Forall₂ (Shows text) (tree.blocks.flatten.map .ofDirective) slots)
    (hsources : Forall₂ (Shows text) (arrangedAll policy text tree.blocks) slots') :
    (slots'.map fun slot => spell slot.body).Perm (slots.map fun slot => spell slot.body) := by
  rw [Read.map_eq_of_forall₂ (hshows.imp fun _ _ h => h.slice.symm),
    Read.map_eq_of_forall₂ (hsources.imp fun _ _ h => h.slice.symm)]
  exact (arrangedAll_perm policy text tree.blocks).map _

theorem exists_formatted_laid {tail : List Piece} (hread : CSharp.read text = (late, .ok tree))
    (hcut : Piece.Cut text mark (DirectiveSlot.all slots ++ tail))
    (hreads : ∀ slot ∈ slots, slot.Reads)
    (hholds : DirectiveSlot.Holds mark.size slots tree.blocks.flatten) (options : FormatSettings) :
    ∃ formatted tree' found slots' tail', CSharp.read formatted = (late, .ok tree') ∧
      tokenize text = .ok found ∧
      Edit.applyAll text (Spacing.edits text found options) = .ok formatted ∧
      Piece.Cut formatted mark (DirectiveSlot.all slots' ++ tail') ∧
      Forall₂ (FormattedSlot options) slots slots' ∧
      Piece.tagged tail' = Spacing.reshape options [] tail ++
        Spacing.tag false (Spacing.lineEnd options text) ∧
      DirectiveSlot.Holds mark.size slots' tree'.blocks.flatten ∧
      ∀ policy, Forall₂ (Follows options text formatted) (arrangedAll policy text tree.blocks)
        (arrangedAll policy formatted tree'.blocks) := by
  obtain ⟨text', slots', tail', hreshaped, hslots, htail⟩ :=
    Spacing.exists_reshaped_slots hcut hreads options
  obtain ⟨found, formatted, found', tree', hread', hformatted⟩ :=
    Spacing.exists_formatted hread options
  -- slots and trees were formatted apart, but the texts and tokens are the same
  obtain rfl : locate mark.size (DirectiveSlot.all slots ++ tail) = found :=
    Except.ok.inj (hcut.tokenize_eq.symm.trans hformatted.tokenized)
  obtain rfl : text' = formatted :=
    Except.ok.inj (hreshaped.applied.symm.trans hformatted.applied)
  obtain rfl : locate mark.size (DirectiveSlot.all slots' ++ tail') = found' :=
    Except.ok.inj (hreshaped.cut.tokenize_eq.symm.trans hformatted.tokenized')
  have hmoved := List.rel_flatten hformatted.moved
  have hholds' : DirectiveSlot.Holds mark.size slots' tree'.blocks.flatten :=
    holds_formatted [] [] (ordered_of_tokenize hformatted.tokenized) hslots hholds hmoved rfl rfl rfl
  refine ⟨text', tree', _, slots', tail', hread', hformatted.tokenized, hformatted.applied,
    hreshaped.cut, hslots, htail, hholds', fun policy => ?_⟩
  refine forall₂_arrangedAll (fun _ _ h => h.same)
    (splitAlike_of_formatted hread hread' hformatted) ?_
  have hshows := hholds.shows (spell tail)
  have hshows' := hholds'.shows (spell tail')
  rw [← Piece.spell_append, ← hcut.eq] at hshows
  rw [← Piece.spell_append, ← hreshaped.cut.eq] at hshows'
  refine (forall₂_comp hshows (forall₂_comp hslots hshows'.flip)).imp fun source source' h => ?_
  obtain ⟨slot, hsource, slot', hslot, hsource'⟩ := h
  exact ⟨slot, slot', hsource, hsource', hslot⟩

/-- A text and what the fix makes of it, as rows of slots with the same gaps and the same tail. -/
structure FixedRow (policy : OrderPolicy) (text : Text) (tree : Tree) (sorted : Text) (sortedTree : Tree)
    (mark : Text) (slots slots' : List DirectiveSlot) (tail : List Piece) : Prop where
  cut : Piece.Cut text mark (DirectiveSlot.all slots ++ tail)
  cut' : Piece.Cut sorted mark (DirectiveSlot.all slots' ++ tail)
  reads : ∀ slot ∈ slots, slot.Reads
  reads' : ∀ slot' ∈ slots', slot'.Reads
  holds : DirectiveSlot.Holds mark.size slots tree.blocks.flatten
  holds' : DirectiveSlot.Holds mark.size slots' sortedTree.blocks.flatten
  gaps : Forall₂ (fun slot slot' : DirectiveSlot => slot'.gap = slot.gap) slots slots'
  sources : Forall₂ (Shows text) (arrangedAll policy text tree.blocks) slots'
  applied : Edit.applyAll text (edits policy text tree) = .ok sorted

theorem Fixed.row {chunks chunks' : List Chunk}
    (h : Fixed policy text tree text' tree' mark chunks chunks') :
    FixedRow policy text tree text' tree' mark (Chunk.join [] chunks).slots
      (Chunk.join [] chunks').slots (Chunk.join [] chunks).tail := by
  obtain ⟨htail, hslots⟩ := Chunk.refilled_join (h.evenly.imp fun _ _ h => h.toRefilled) []
  have hpieces := Chunk.join_pieces [] chunks
  have hpieces' := Chunk.join_pieces [] chunks'
  rw [List.nil_append, Chunk.pieces] at hpieces hpieces'
  rw [htail] at hpieces'
  exact ⟨hpieces ▸ h.laid.cut, hpieces' ▸ h.laid'.cut, Chunk.forall_slots_join h.laid.reads [],
    Chunk.forall_slots_join h.laid'.reads [], h.laid.holds_join, h.laid'.holds_join,
    hslots.imp fun _ _ hslot => hslot.1, shows_join h.takes, h.turns.applyAll_eq⟩

theorem FixedRow.lineEnd_eq {tail : List Piece}
    (h : FixedRow policy text tree text' tree' mark slots slots' tail) (options : FormatSettings) :
    Spacing.lineEnd options text' = Spacing.lineEnd options text := by
  have hshows := h.holds.shows (spell tail)
  rw [← Piece.spell_append, ← h.cut.eq] at hshows
  have hgaps : (slots'.map fun slot => spell slot.gap) = slots.map fun slot => spell slot.gap :=
    Read.map_eq_of_forall₂ (h.gaps.imp fun _ _ hgap => congrArg spell hgap)
  rw [h.cut'.eq, h.cut.eq, Piece.spell_append, Piece.spell_append]
  exact Spacing.lineEnd_refilled (h.cut.opens.symm.imp_left And.left)
    (fun slot hmem => (h.reads slot hmem).enclosed) (fun slot hmem => (h.reads' slot hmem).enclosed)
    hgaps (bodies_perm hshows h.sources) options _

/-- **Either way round.** What the formatter makes of the fixed text is what the fix makes of the
formatted text. -/
theorem exists_commuted (hread : CSharp.read text = (late, .ok tree)) (policy : OrderPolicy)
    (options : FormatSettings) :
    ∃ sorted sortedTree sortedTokens formatted formattedTree found final,
      CSharp.read sorted = (late, .ok sortedTree) ∧ tokenize sorted = .ok sortedTokens ∧
      CSharp.read formatted = (late, .ok formattedTree) ∧ tokenize text = .ok found ∧
      Edit.applyAll text (edits policy text tree) = .ok sorted ∧
      Edit.applyAll sorted (Spacing.edits sorted sortedTokens options) = .ok final ∧
      Edit.applyAll text (Spacing.edits text found options) = .ok formatted ∧
      Edit.applyAll formatted (edits policy formatted formattedTree) = .ok final := by
  obtain ⟨sorted, sortedTree, mark, chunks, chunks', hsorted, hfixed⟩ := exists_fixed hread policy
  have hrow := hfixed.row
  generalize (Chunk.join [] chunks).slots = slots at hrow
  generalize (Chunk.join [] chunks).tail = tail at hrow
  generalize (Chunk.join [] chunks').slots = slots' at hrow
  obtain ⟨formatted, formattedTree, found, row, rowTail, hformatted, htokens, happlied, hcut, hslots,
    htail, hholds, hfollows⟩ :=
    exists_formatted_laid hread hrow.cut hrow.reads hrow.holds options
  obtain ⟨final, -, sortedTokens, row', rowTail', -, htokens', happlied', hcut', hslots', htail', -⟩ :=
    exists_formatted_laid hsorted hrow.cut' hrow.reads' hrow.holds' options
  -- the fix fills the slots of the formatted text with what stands in those of the other
  have hsources : Forall₂ (Shows formatted) (arrangedAll policy formatted formattedTree.blocks)
      row' := by
    refine (forall₂_comp (forall₂_comp (hfollows policy).flip hrow.sources) hslots').imp ?_
    rintro source' filled ⟨slot, ⟨source, hsource, hshows⟩, hslot⟩
    exact Follows.shows hsource hshows hslot
  have hgaps : Forall₂ (fun slot slot' : DirectiveSlot => spell slot'.gap = spell slot.gap) row
      row' := by
    refine (forall₂_comp (forall₂_comp hslots.flip hrow.gaps) hslots').imp ?_
    rintro filled filled' ⟨slot', ⟨slot, hslot, hgap⟩, hslot'⟩
    exact hslot'.spell_gap_congr hslot hgap
  have hbodies : ∀ filled ∈ row, spell filled.body ≠ [] := by
    intro filled hmem hnone
    obtain ⟨slot, -, hslot⟩ := Read.exists_of_mem_forall₂ hslots.flip hmem
    obtain ⟨c, word, hspell, -⟩ := hslot.enclosed'.exists_spell
    rw [hnone] at hspell
    cases hspell
  have hturns := turns_edits (hcut.eq.trans (congrArg _ (Piece.spell_append _ _))) hholds hsources
    hgaps hbodies
  have htails : spell rowTail' = spell rowTail := by
    rw [← Piece.plain_tagged rowTail', htail', hrow.lineEnd_eq, ← htail, Piece.plain_tagged]
  have hfinal : final = mark ++ (spell (DirectiveSlot.all row') ++ spell rowTail) :=
    calc final = mark ++ spell (DirectiveSlot.all row' ++ rowTail') := hcut'.eq
      _ = mark ++ (spell (DirectiveSlot.all row') ++ spell rowTail) := by
        rw [Piece.spell_append, htails]
  refine ⟨sorted, sortedTree, sortedTokens, formatted, formattedTree, found, final, hsorted, htokens',
    hformatted, htokens, hrow.applied, happlied', happlied, ?_⟩
  rw [hfinal]
  exact hturns.applyAll_eq

/-- **Sorting and formatting commute.** Whichever of the two edits a file first, with the file read
again in between, both are accepted and the text is the same in the end. -/
theorem fix_commutes_with_formatting {id : DocumentId} {path : Path}
    (hroot : (Document.parse CSharp.reader id path text).1.root = .ok tree) (policy : OrderPolicy)
    (options : FormatSettings) :
    ∃ fixes sorted laterFormats formats formatted laterFixes final,
      (rule policy).fix (Document.parse CSharp.reader id path text).1 = .ok fixes ∧
      Edit.applyAll text fixes = .ok sorted ∧
      spacingFormatter (Document.parse CSharp.reader id path sorted).1 options = .ok laterFormats ∧
      Edit.applyAll sorted laterFormats = .ok final ∧
      spacingFormatter (Document.parse CSharp.reader id path text).1 options = .ok formats ∧
      Edit.applyAll text formats = .ok formatted ∧
      (rule policy).fix (Document.parse CSharp.reader id path formatted).1 = .ok laterFixes ∧
      Edit.applyAll formatted laterFixes = .ok final := by
  obtain ⟨late, hread⟩ := Document.root_parse_eq_ok_iff.mp hroot
  obtain ⟨sorted, sortedTree, sortedTokens, formatted, formattedTree, found, final, hsorted, htokens',
    hformatted, htokens, hfixed, hfinal, happlied, hfinal'⟩ := exists_commuted hread policy options
  refine ⟨edits policy text tree, sorted, Spacing.edits sorted sortedTokens options,
    Spacing.edits text found options, formatted, edits policy formatted formattedTree, final, ?_,
    hfixed, ?_, hfinal, ?_, happlied, ?_, hfinal'⟩
  · rw [Document.parse_eq hread]
    rfl
  · rw [Document.parse_eq hsorted]
    exact Spacing.spacingFormatter_eq rfl htokens' options
  · rw [Document.parse_eq hread]
    exact Spacing.spacingFormatter_eq rfl htokens options
  · rw [Document.parse_eq hformatted]
    rfl

/-- Directives with blanks behind them change places, and the last line gets an end like the others. -/
theorem fix_commutes_with_formatting_of_blanks :
    ∃ tree fixes sorted laterFormats formats formatted laterFixes final,
      (Document.parse CSharp.reader ⟨0⟩ ⟨"a.cs"⟩
        "using B; \r\nusing  A /* a \n */ ; // a \nclass C \x7b\x7d".toList).1.root = .ok tree ∧
      (rule .alphabetical).fix (Document.parse CSharp.reader ⟨0⟩ ⟨"a.cs"⟩
        "using B; \r\nusing  A /* a \n */ ; // a \nclass C \x7b\x7d".toList).1 = .ok fixes ∧
      Edit.applyAll "using B; \r\nusing  A /* a \n */ ; // a \nclass C \x7b\x7d".toList fixes =
        .ok sorted ∧
      spacingFormatter (Document.parse CSharp.reader ⟨0⟩ ⟨"a.cs"⟩ sorted).1
        { insertFinalNewline := true } = .ok laterFormats ∧
      Edit.applyAll sorted laterFormats = .ok final ∧
      spacingFormatter (Document.parse CSharp.reader ⟨0⟩ ⟨"a.cs"⟩
        "using B; \r\nusing  A /* a \n */ ; // a \nclass C \x7b\x7d".toList).1
          { insertFinalNewline := true } = .ok formats ∧
      Edit.applyAll "using B; \r\nusing  A /* a \n */ ; // a \nclass C \x7b\x7d".toList formats =
        .ok formatted ∧
      (rule .alphabetical).fix (Document.parse CSharp.reader ⟨0⟩ ⟨"a.cs"⟩ formatted).1 =
        .ok laterFixes ∧
      Edit.applyAll formatted laterFixes = .ok final := by
  obtain ⟨tree, htree⟩ := Option.isSome_iff_exists.mp (by decide +kernel :
    (CSharp.tree? "using B; \r\nusing  A /* a \n */ ; // a \nclass C \x7b\x7d".toList).isSome)
  have hroot := Document.root_parse_of_tree? htree ⟨0⟩ ⟨"a.cs"⟩
  obtain ⟨fixes, sorted, laterFormats, formats, formatted, laterFixes, final, hcommute⟩ :=
    fix_commutes_with_formatting hroot .alphabetical { insertFinalNewline := true }
  exact ⟨tree, fixes, sorted, laterFormats, formats, formatted, laterFixes, final, hroot, hcommute⟩

end DirectiveOrder

end CSharpTidy
