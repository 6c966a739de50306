import CSharpTidy.Proofs.Tree.Layout

/-!
# Texts that are laid out

A text with a tree is laid out in chunks. Joined into one, the chunks are a row of slots with the same
gaps between them whatever directives they hold. Filled with other directives of the same total width,
they spell a text that scans and reads again, and its tree has the same skeleton.
-/

namespace CSharpTidy

open List (Forall₂)
open Piece (width)

variable {offset : Nat} {lead tail : List Piece} {slots slots' : List DirectiveSlot}
  {directives directives' : List Directive} {chunks chunks' : List Chunk}
  {blocks : List (List Directive)}

/-- Chunks as one, the tail of each put in front of the slots of the next. -/
def Chunk.join (lead : List Piece) : List Chunk → Chunk
  | [] => ⟨[], lead⟩
  | chunk :: chunks =>
      let first := Read.prepend lead chunk
      let others := join first.tail chunks
      ⟨first.slots ++ others.slots, others.tail⟩

theorem DirectiveSlot.all_append (slots slots' : List DirectiveSlot) :
    DirectiveSlot.all (slots ++ slots') = DirectiveSlot.all slots ++ DirectiveSlot.all slots' :=
  List.flatMap_append

theorem Chunk.join_pieces (lead : List Piece) (chunks : List Chunk) :
    (join lead chunks).pieces = lead ++ Chunk.all chunks := by
  induction chunks generalizing lead with
  | nil => simp [join, Chunk.pieces, DirectiveSlot.all, Chunk.all]
  | cons chunk chunks ih =>
      have hfirst := Read.prepend_pieces lead chunk
      rw [Chunk.pieces] at hfirst
      rw [join, Chunk.pieces, DirectiveSlot.all_append, List.append_assoc, ← Chunk.pieces, ih,
        ← List.append_assoc, hfirst, Read.chunk_all_cons, List.append_assoc]

theorem DirectiveSlot.Holds.append (h : Holds offset slots directives)
    (h' : Holds (offset + width (DirectiveSlot.all slots)) slots' directives') :
    Holds offset (slots ++ slots') (directives ++ directives') := by
  induction h with
  | nil => exact h'
  | @cons offset slot directive slots directives hspan hcontent hrest ih =>
      refine .cons hspan hcontent (ih ?_)
      rw [Read.slot_all_cons, Piece.width_append, ← Nat.add_assoc] at h'
      exact h'

theorem Chunk.Holds.join (h : Chunk.Holds (offset + width lead) chunks blocks) :
    DirectiveSlot.Holds offset (Chunk.join lead chunks).slots blocks.flatten := by
  generalize hstart : offset + width lead = start at h
  induction h generalizing offset lead with
  | nil => exact .nil
  | @cons start chunk directives chunks blocks hslots hrest ih =>
      subst hstart
      refine (Read.holds_prepend hslots).append (ih ?_)
      have hpieces := congrArg width (Read.prepend_pieces lead chunk)
      rw [Chunk.pieces, Piece.width_append, Piece.width_append] at hpieces
      omega

theorem Chunk.refilled_join (h : Forall₂ Chunk.Refilled chunks chunks') (lead : List Piece) :
    (Chunk.join lead chunks).Refilled (Chunk.join lead chunks') := by
  induction h generalizing lead with
  | nil => exact ⟨rfl, .nil⟩
  | @cons chunk chunk' chunks chunks' hchunk _ ih =>
      have hfirst : (Read.prepend lead chunk).Refilled (Read.prepend lead chunk') := by
        obtain ⟨slots, tail⟩ := chunk
        obtain ⟨slots', tail'⟩ := chunk'
        obtain ⟨rfl, hslots⟩ := hchunk
        cases hslots with
        | nil => exact ⟨rfl, .nil⟩
        | cons hslot hslots =>
            obtain ⟨hgap, hreads⟩ := hslot
            exact ⟨rfl, .cons ⟨by rw [hgap], hreads.segment, hreads.opens, hreads.scans⟩ hslots⟩
      have hothers := ih (Read.prepend lead chunk).tail
      refine ⟨?_, List.rel_append hfirst.slots ?_⟩
      · rw [join, join, hfirst.tail]
        exact hothers.tail
      · rw [hfirst.tail]
        exact hothers.slots

/-- Joining changes the gaps of slots only. -/
theorem Chunk.forall₂_join (lead : List Piece) (chunks : List Chunk) :
    Forall₂ (fun slot slot' : DirectiveSlot => slot.body = slot'.body ∧ slot.content = slot'.content)
      (chunks.flatMap Chunk.slots) (Chunk.join lead chunks).slots := by
  induction chunks generalizing lead with
  | nil => exact .nil
  | cons chunk chunks ih =>
      rw [List.flatMap_cons, join]
      refine List.rel_append ?_ (ih _)
      obtain ⟨slots, tail⟩ := chunk
      cases slots with
      | nil => exact .nil
      | cons slot slots => exact .cons ⟨rfl, rfl⟩ (List.forall₂_same.mpr fun _ _ => ⟨rfl, rfl⟩)

theorem Chunk.forall_slots_join {chunks : List Chunk}
    (h : ∀ chunk ∈ chunks, ∀ slot ∈ chunk.slots, slot.Reads) (lead : List Piece) :
    ∀ slot ∈ (Chunk.join lead chunks).slots, slot.Reads := by
  intro slot' hslot'
  obtain ⟨slot, hslot, hbody, hcontent⟩ :=
    Read.exists_of_mem_forall₂ (Chunk.forall₂_join lead chunks).flip hslot'
  obtain ⟨chunk, hchunk, hmem⟩ := List.mem_flatMap.mp hslot
  have hreads := h chunk hchunk slot hmem
  refine ⟨?_, ?_, ?_⟩
  · rw [← hbody, ← hcontent]
    exact hreads.segment
  · rw [← hbody]
    exact hreads.opens
  · rw [← hbody]
    exact hreads.scans

theorem DirectiveSlot.all_cons_append (slot : DirectiveSlot) (slots : List DirectiveSlot)
    (tail : List Piece) :
    all (slot :: slots) ++ tail = slot.gap ++ (slot.body ++ (all slots ++ tail)) := by
  rw [Read.slot_all_cons, pieces, List.append_assoc, List.append_assoc]

theorem DirectiveSlot.spell_all_cons (slot : DirectiveSlot) (slots : List DirectiveSlot)
    (rest : Text) :
    Piece.spell (all (slot :: slots)) ++ rest =
      Piece.spell slot.gap ++ (Piece.spell slot.body ++ (Piece.spell (all slots) ++ rest)) := by
  rw [Read.slot_all_cons, pieces]
  simp

/-- Whatever directives stand in the slots, all pieces scan as they did. -/
theorem DirectiveSlot.scanned_refilled {lineStart : Bool}
    (h : Forall₂ (fun slot slot' : DirectiveSlot => slot'.gap = slot.gap ∧ slot'.Reads) slots slots')
    (hreads : ∀ slot ∈ slots, slot.Reads)
    (hscanned : Piece.Scanned [] lineStart (DirectiveSlot.all slots ++ tail)) :
    Piece.Scanned [] lineStart (DirectiveSlot.all slots' ++ tail) := by
  induction h generalizing lineStart with
  | nil => exact hscanned
  | @cons slot slot' slots slots' hslot hslots ih =>
      obtain ⟨hgap, hreads'⟩ := hslot
      obtain ⟨c, text, hspell, halnum⟩ := (hreads slot List.mem_cons_self).opens
      obtain ⟨d, text', hspell', halnum'⟩ := hreads'.opens
      rw [all_cons_append, Piece.scanned_append, Piece.scanned_append] at hscanned ⊢
      obtain ⟨hbefore, hbody, hafter⟩ := hscanned
      rw [hgap]
      refine ⟨hbefore.congr ?_, (hreads'.scans _ _).1, ?_⟩
      · have hfront : ∀ {slot : DirectiveSlot} {c : Char} {text : Text} (pieces : List Piece),
            Piece.spell slot.body = c :: text →
              Piece.spell (slot.body ++ pieces) ++ [] = c :: (text ++ Piece.spell pieces) := by
          intro slot c text pieces hbody
          rw [Piece.spell_append, hbody, List.append_nil, List.cons_append]
        rw [hfront _ hspell, hfront _ hspell']
        exact Scan.alike_of_isAlphanum halnum halnum' _ _
      · rw [(hreads'.scans [] _).2]
        refine ih (fun later hmem => hreads later (List.mem_cons_of_mem _ hmem)) ?_
        rw [← ((hreads slot List.mem_cons_self).scans [] (Piece.lineStartAfter lineStart slot.gap)).2]
        exact hafter

theorem DirectiveSlot.head?_refilled
    (h : Forall₂ (fun slot slot' : DirectiveSlot => slot'.gap = slot.gap ∧ slot'.Reads) slots slots')
    (hhead : (Piece.spell (DirectiveSlot.all slots ++ tail)).head? ≠ some byteOrderMark) :
    (Piece.spell (DirectiveSlot.all slots' ++ tail)).head? ≠ some byteOrderMark := by
  cases h with
  | nil => exact hhead
  | @cons slot slot' slots slots' hslot hslots =>
      obtain ⟨hgap, hreads'⟩ := hslot
      obtain ⟨c, text, hspell, halnum⟩ := hreads'.opens
      simp only [DirectiveSlot.all, List.flatMap_cons, DirectiveSlot.pieces, Piece.spell_append,
        List.append_assoc, hgap, hspell] at hhead ⊢
      cases hfirst : Piece.spell slot.gap with
      | nil =>
          rw [List.nil_append, List.cons_append, List.head?_cons]
          intro heq
          cases heq
          exact absurd halnum (by decide)
      | cons d gap =>
          rw [hfirst] at hhead
          exact hhead

/-- A text in chunks that hold the directives of its tree. -/
structure Laid (text mark : Text) (chunks : List Chunk) (tree : Tree) : Prop where
  cut : Piece.Cut text mark (Chunk.all chunks)
  holds : Chunk.Holds mark.size chunks tree.blocks
  reads : ∀ chunk ∈ chunks, ∀ slot ∈ chunk.slots, slot.Reads

theorem Laid.holds_join {text mark : Text} {tree : Tree} (h : Laid text mark chunks tree) :
    DirectiveSlot.Holds mark.size (Chunk.join [] chunks).slots tree.blocks.flatten := by
  have hholds : Chunk.Holds (mark.size + width []) chunks tree.blocks := h.holds
  exact hholds.join

theorem Chunk.width_all (h : Forall₂ Chunk.Evenly chunks chunks') :
    width (Chunk.all chunks') = width (Chunk.all chunks) := by
  induction h with
  | nil => rfl
  | cons hchunk _ ih =>
      rw [Read.chunk_all_cons, Read.chunk_all_cons, Chunk.pieces, Chunk.pieces, Piece.width_append,
        Piece.width_append, Piece.width_append, Piece.width_append, ih, hchunk.width, hchunk.tail]

theorem grown_empty (directives : List Directive) :
    Read.State.grown {} directives = [directives] := rfl

theorem Laid.cut_refilled {text mark : Text} {tree : Tree} (h : Laid text mark chunks tree)
    (hchunks : Forall₂ Chunk.Refilled chunks chunks') :
    Piece.Cut (mark ++ Piece.spell (Chunk.all chunks')) mark (Chunk.all chunks') := by
  obtain ⟨htail, hslots⟩ := Chunk.refilled_join hchunks []
  have hall := Chunk.join_pieces [] chunks
  have hall' := Chunk.join_pieces [] chunks'
  rw [Chunk.pieces, List.nil_append] at hall hall'
  rw [htail] at hall'
  refine ⟨rfl, ?_, ?_⟩
  · have hscanned := h.cut.scanned
    rw [← hall] at hscanned
    rw [← hall']
    exact DirectiveSlot.scanned_refilled hslots (Chunk.forall_slots_join h.reads []) hscanned
  · rcases h.cut.opens with hmark | ⟨hmark, hhead⟩
    · exact .inl hmark
    · refine .inr ⟨hmark, ?_⟩
      rw [h.cut.eq, hmark, List.nil_append, ← hall] at hhead
      rw [hmark, List.nil_append, ← hall']
      exact DirectiveSlot.head?_refilled hslots hhead

theorem Read.Parse.blocks_unique {state last last' : Read.State} {tokens : List Token}
    (h : Read.Parse state tokens last) (h' : Read.Parse state tokens last') :
    last.blocks = last'.blocks := by
  have hresult := (h.declarations_eq 0).symm.trans (h'.declarations_eq 0)
  simp only [Read.Outcome.mk.injEq, Except.ok.injEq] at hresult
  have hblocks := congrArg Tree.blocks hresult.2
  rwa [Read.State.blocks_close _ _ _ last.late, Read.State.blocks_close _ _ _ last'.late] at hblocks

/-- From the beginning of a file, its chunks are read to the end however they are refilled. -/
theorem Read.Layout.exists_parse {offset : Nat} {pieces : List Piece} {last : Read.State}
    {first first' : Chunk} {others others' : List Chunk}
    (h : Read.Layout {} offset pieces last first others) (hfirst : first.Evenly first')
    (hothers : Forall₂ Chunk.Evenly others others') :
    ∃ last', Read.Parse {} (Piece.code offset (Chunk.all (first' :: others'))) last' ∧
      last'.hollow = last.hollow ∧ Chunk.Holds offset (first' :: others') last'.blocks := by
  obtain ⟨-, last', directives, blocks, hparse, hhollow, hslots, hchunks, hblocks⟩ :=
    h.refill first' others' offset {} hfirst.toRefilled hothers (fun _ => rfl) rfl (by
      rw [hfirst.width])
  refine ⟨last', hparse, hhollow, ?_⟩
  rw [hblocks, grown_empty]
  exact .cons hslots hchunks

/-- **Refilling.** A text with a tree is laid out in chunks, and so is the text that they spell when
they hold other directives that are as wide. -/
theorem exists_laid {text : Text} {late : List Text} {tree : Tree}
    (h : CSharp.read text = (late, .ok tree)) :
    ∃ mark chunks, Laid text mark chunks tree ∧
      (∀ chunk ∈ chunks, ∀ slot ∈ chunk.slots, ∀ offset,
        Read.Aliases (Piece.code offset slot.gap)) ∧
      ∀ chunks', Forall₂ Chunk.Evenly chunks chunks' →
        ∃ tree', CSharp.read (mark ++ Piece.spell (Chunk.all chunks')) = (late, .ok tree') ∧
          tree'.skeleton = tree.skeleton ∧
            Laid (mark ++ Piece.spell (Chunk.all chunks')) mark chunks' tree' := by
  obtain ⟨tokens, last, htokens, hparse, rfl, rfl⟩ := CSharp.read_eq_ok_iff.mp h
  obtain ⟨mark, pieces, hcut, rfl⟩ := exists_cut_of_tokenize htokens
  obtain ⟨first, others, hlayout⟩ :=
    Read.exists_layout hparse (fun _ => rfl) (rfl : Piece.code mark.size pieces = _) hcut.scanned
  obtain rfl := hlayout.pieces_eq
  have hreads : ∀ chunk ∈ first :: others, ∀ slot ∈ chunk.slots, slot.Reads :=
    fun chunk hchunk slot hslot => (hlayout.reads chunk hchunk slot hslot).1
  have hself : Forall₂ Chunk.Evenly (first :: others) (first :: others) :=
    List.forall₂_same.mpr fun chunk hchunk =>
      ⟨⟨rfl, List.forall₂_same.mpr fun slot hslot => ⟨rfl, hreads chunk hchunk slot hslot⟩⟩, rfl⟩
  have hlaid : Laid text mark (first :: others)
      (Read.State.close text.size last.block last.outer) := by
    refine ⟨hcut, ?_, hreads⟩
    cases hself with
    | cons hfirst hothers =>
        obtain ⟨last', hparse', -, hholds⟩ := hlayout.exists_parse hfirst hothers
        rw [Read.State.blocks_close _ _ _ last.late, hparse.blocks_unique hparse']
        exact hholds
  refine ⟨mark, first :: others, hlaid, fun chunk hchunk slot hslot =>
    (hlayout.reads chunk hchunk slot hslot).2, ?_⟩
  intro chunks' hchunks
  have hcut' := hlaid.cut_refilled (hchunks.imp fun _ _ h => h.toRefilled)
  cases hchunks with
  | @cons _ first' _ others' hfirst hothers =>
      obtain ⟨last', hparse', hhollow, hholds⟩ := hlayout.exists_parse hfirst hothers
      have hsize : (mark ++ Piece.spell (Chunk.all (first' :: others'))).size = text.size := by
        have hwidth := Chunk.width_all (List.Forall₂.cons hfirst hothers)
        rw [Piece.width, Piece.width] at hwidth
        rw [hcut.eq, Text.size_append, Text.size_append, hwidth]
      simp only [Read.State.hollow, Read.State.redraw, Read.State.mk.injEq] at hhollow
      obtain ⟨hblock, houter, hlate⟩ := hhollow
      refine ⟨_, CSharp.read_eq_ok_iff.mpr ⟨_, last', hcut'.tokenize_eq, hparse', hlate.symm, rfl⟩,
        Read.redraw_close Read.hollow_append hsize hblock houter, hcut', ?_, ?_⟩
      · rw [Read.State.blocks_close _ _ _ last'.late]
        exact hholds
      · intro chunk' hchunk' slot' hslot'
        obtain ⟨chunk, -, hchunk⟩ :=
          Read.exists_of_mem_forall₂ (List.Forall₂.cons hfirst hothers).flip hchunk'
        obtain ⟨slot, -, -, hslot⟩ := Read.exists_of_mem_forall₂ hchunk.slots.flip hslot'
        exact hslot

end CSharpTidy
