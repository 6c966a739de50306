import Mathlib.Data.List.Perm.Basic
import CSharpTidy.Proofs.Text.Rewrite
import CSharpTidy.Proofs.Order.Arrange
import CSharpTidy.Proofs.Tree.Refill

/-!
# Swapping directives in their slots

The edits of the fix name directives by their spans. In a text that is laid out, a span is the body of
a slot, and what lies between two spans is the gap of the second slot. So the edits turn the text into
the one that the chunks spell when the slots of each are refilled as the scope is arranged.
-/

namespace CSharpTidy

open List (Forall₂)
open Piece (width spell)

/-- The parts of a text around spans that stand in order, from an offset on. -/
def Text.outside (text : Text) (cursor : Nat) : List Span → List Text
  | [] => [text.dropBytes cursor]
  | span :: spans => text.slice cursor span.start :: outside text span.stop spans

def Directive.summary (text : Text) (directive : Directive) :
    Text × (Text × DirectiveKind × Bool) :=
  (directive.span.slice text, directive.content)

namespace DirectiveSlot

variable {text before rest : Text} {slots slots' sources : List DirectiveSlot}
  {directives directives' : List Directive} {tail : List Piece}

/-- What a slot holds, as a directive in a text does. -/
def summary (slot : DirectiveSlot) : Text × (Text × DirectiveKind × Bool) :=
  (spell slot.body, slot.content)

/-- What an order sees of a directive is what stands in a slot. -/
structure Shows (text : Text) (directive : ScopeDirective) (slot : DirectiveSlot) : Prop where
  slice : directive.span.slice text = spell slot.body
  sortKey : directive.sortKey = slot.content.1
  isGlobal : directive.isGlobal = slot.content.2.2

/-- The texts between neighbouring directives. -/
def between (text : Text) : List ScopeDirective → List Text
  | first :: second :: rest =>
      text.slice first.span.stop second.span.start :: between text (second :: rest)
  | _ => []

/-- The texts in front of slots and behind the last one. -/
def separators (lead rest : Text) : List DirectiveSlot → List Text
  | [] => [lead ++ rest]
  | slot :: slots => (lead ++ spell slot.gap) :: separators [] rest slots

theorem size_through (before : Text) (slot : DirectiveSlot) :
    (before ++ spell slot.gap ++ spell slot.body).size = before.size + width slot.pieces := by
  rw [pieces, Piece.width_append, Text.size_append, Text.size_append]
  simp only [width, Nat.add_assoc]

theorem append_spell_all_cons (before : Text) (slot : DirectiveSlot) (slots : List DirectiveSlot)
    (rest : Text) :
    before ++ (spell (all (slot :: slots)) ++ rest) =
      before ++ spell slot.gap ++ spell slot.body ++ (spell (all slots) ++ rest) := by
  rw [spell_all_cons]
  simp only [List.append_assoc]

theorem Holds.summary (h : Holds before.size slots directives) (rest : Text) :
    directives.map (Directive.summary (before ++ (spell (all slots) ++ rest))) =
      slots.map DirectiveSlot.summary := by
  generalize hoffset : before.size = offset at h
  induction h generalizing before with
  | nil => rfl
  | @cons offset slot directive slots directives hspan hcontent hrest ih =>
      have hslice : directive.span.slice (before ++ (spell (all (slot :: slots)) ++ rest)) =
          spell slot.body := by
        have hbody := Text.slice_append (before ++ spell slot.gap) (spell slot.body)
          (spell (all slots) ++ rest)
        rw [hspan, Span.slice, spell_all_cons, ← List.append_assoc]
        rw [Text.size_append, hoffset] at hbody
        exact hbody
      rw [List.map_cons, List.map_cons, Directive.summary, hslice, hcontent]
      refine congrArg _ ?_
      rw [append_spell_all_cons]
      exact ih (by rw [size_through, hoffset])

theorem Holds.shows (h : Holds before.size slots directives) (rest : Text) :
    Forall₂ (Shows (before ++ (spell (all slots) ++ rest)))
      (directives.map ScopeDirective.ofDirective) slots := by
  have hsummary := h.summary rest
  generalize before ++ (spell (all slots) ++ rest) = text at hsummary ⊢
  clear h
  induction directives generalizing slots with
  | nil =>
      obtain rfl : slots = [] := by simpa using hsummary.symm
      exact .nil
  | cons directive directives ih =>
      cases slots with
      | nil => cases hsummary
      | cons slot slots =>
          obtain ⟨hfirst, hothers⟩ := List.cons.inj hsummary
          obtain ⟨hslice, hcontent⟩ := Prod.mk.inj hfirst
          have hname : directive.name = slot.content.1 := congrArg Prod.fst hcontent
          have hglobal : directive.isGlobal = slot.content.2.2 :=
            congrArg (fun content => content.2.2) hcontent
          exact .cons ⟨hslice, hname, hglobal⟩ (ih hothers)

theorem Holds.between (h : Holds before.size slots directives) (rest : Text) :
    between (before ++ (spell (all slots) ++ rest)) (directives.map ScopeDirective.ofDirective) =
      slots.tail.map fun slot => spell slot.gap := by
  generalize hoffset : before.size = offset at h
  induction h generalizing before with
  | nil => rfl
  | @cons offset slot directive slots directives hspan hcontent hrest ih =>
      have hnext : DirectiveSlot.between
          (before ++ spell slot.gap ++ spell slot.body ++ (spell (all slots) ++ rest))
          (directives.map ScopeDirective.ofDirective) = slots.tail.map fun slot => spell slot.gap :=
        ih (by rw [size_through, hoffset])
      rw [← append_spell_all_cons] at hnext
      cases hrest with
      | nil => rfl
      | @cons _ slot' directive' slots directives hspan' hcontent' hrest' =>
          rw [List.map_cons, List.map_cons, DirectiveSlot.between]
          rw [List.map_cons] at hnext
          refine List.cons_eq_cons.mpr ⟨?_, hnext⟩
          have hgap := Text.slice_append (before ++ spell slot.gap ++ spell slot.body)
            (spell slot'.gap) (spell slot'.body ++ (spell (all slots) ++ rest))
          rw [size_through, hoffset, ← spell_all_cons, ← append_spell_all_cons] at hgap
          have hstop : directive.span.stop = offset + width slot.pieces := by
            rw [hspan, pieces, Piece.width_append, Nat.add_assoc]
          have hstart : directive'.span.start = offset + width slot.pieces + (spell slot'.gap).size := by
            rw [hspan']
            rfl
          change Text.slice _ directive.span.stop directive'.span.start = _
          rw [hstop, hstart]
          exact hgap

theorem Holds.outside {lead : Text} (h : Holds (before.size + lead.size) slots directives)
    (rest : Text) :
    Text.outside (before ++ (lead ++ (spell (all slots) ++ rest))) before.size
      (directives.map Directive.span) = separators lead rest slots := by
  generalize hoffset : before.size + lead.size = offset at h
  induction h generalizing before lead with
  | nil =>
      rw [List.map_nil, Text.outside, Text.dropBytes_append]
      rfl
  | @cons offset slot directive slots directives hspan hcontent hrest ih =>
      have htext : before ++ (lead ++ (spell (all (slot :: slots)) ++ rest)) =
          before ++ lead ++ spell slot.gap ++ spell slot.body ++ (spell (all slots) ++ rest) := by
        rw [← List.append_assoc, append_spell_all_cons]
      have hstart : directive.span.start = before.size + (lead ++ spell slot.gap).size := by
        rw [hspan, Text.size_append, ← Nat.add_assoc, hoffset]
        rfl
      have hstop : directive.span.stop =
          (before ++ lead ++ spell slot.gap ++ spell slot.body).size := by
        rw [size_through, Text.size_append, hoffset, hspan, pieces, Piece.width_append, Nat.add_assoc]
      have hnext : Text.outside
          (before ++ lead ++ spell slot.gap ++ spell slot.body ++ ([] ++ (spell (all slots) ++ rest)))
          (before ++ lead ++ spell slot.gap ++ spell slot.body).size
          (directives.map Directive.span) = separators [] rest slots :=
        ih (by rw [size_through, Text.size_append, hoffset]; rfl)
      rw [List.nil_append, ← htext, ← hstop] at hnext
      rw [List.map_cons, Text.outside, separators, hnext, hstart]
      refine congrArg (· :: separators [] rest slots) ?_
      have hslice := Text.slice_append before (lead ++ spell slot.gap)
        (spell slot.body ++ (spell (all slots) ++ rest))
      rw [List.append_assoc, ← spell_all_cons] at hslice
      exact hslice

theorem separators_congr {lead rest : Text}
    (h : Forall₂ (fun slot slot' : DirectiveSlot => slot'.gap = slot.gap) slots slots') :
    separators lead rest slots' = separators lead rest slots := by
  induction h generalizing lead with
  | nil => rfl
  | cons hgap _ ih => rw [separators, separators, hgap, ih]

/-- The edits that swap directives turn what slots spell into what they spell refilled. -/
theorem Holds.turns {offset : Nat} {text : Text} {sources : List ScopeDirective}
    (h : Holds offset slots directives)
    (hshows : Forall₂ (Shows text) (directives.map ScopeDirective.ofDirective) slots)
    (hsources : Forall₂ (Shows text) sources slots')
    (hgaps : Forall₂ (fun slot slot' : DirectiveSlot => spell slot'.gap = spell slot.gap) slots
      slots')
    (hbodies : ∀ slot ∈ slots, spell slot.body ≠ []) (rest : Text) :
    Edit.Turns offset
      (DirectiveOrder.swaps text (directives.map ScopeDirective.ofDirective) sources)
      (spell (all slots) ++ rest) (spell (all slots') ++ rest) := by
  induction h generalizing slots' sources with
  | nil =>
      cases hgaps
      exact .done rest
  | @cons offset slot directive slots directives hspan hcontent hrest ih =>
      cases hgaps with
      | @cons _ slot' _ slots' hgap hgaps =>
          cases hsources with
          | @cons source _ sources _ hsource hsources =>
              cases hshows with
              | cons hshow hshows =>
                  have hnext := ih hshows hsources hgaps fun later hmem =>
                    hbodies later (List.mem_cons_of_mem _ hmem)
                  have hne := hbodies slot List.mem_cons_self
                  have hoffset : offset + (spell slot.gap).size + (spell slot.body).size =
                      offset + width slot.pieces := by
                    rw [pieces, Piece.width_append, ← Nat.add_assoc]
                    rfl
                  rw [← hoffset] at hnext
                  rw [spell_all_cons, spell_all_cons, hgap]
                  refine .kept _ ?_
                  rw [List.map_cons, DirectiveOrder.swaps_cons]
                  split
                  · next hsame =>
                      have hkept : spell slot'.body = spell slot.body := by
                        rw [← hsource.slice, ← hshow.slice, hsame]
                      -- a directive in its own place gives no edit
                      rw [hkept]
                      exact .kept _ hnext
                  · rw [← hsource.slice]
                    exact .replaced hspan hne hnext

end DirectiveSlot

/-- Neighbours with the same texts between them are split alike. -/
theorem DirectiveOrder.splitAlike_of_between {text text' : Text}
    {directives directives' : List ScopeDirective} (hlength : directives.length = directives'.length)
    (h : DirectiveSlot.between text directives = DirectiveSlot.between text' directives') :
    SplitAlike text text' directives directives' := by
  induction directives generalizing directives' with
  | nil =>
      obtain rfl := List.eq_nil_of_length_eq_zero hlength.symm
      exact .nil
  | cons first rest ih =>
      cases directives' with
      | nil => cases hlength
      | cons first' rest' =>
          cases rest with
          | nil =>
              obtain rfl : rest' = [] := List.eq_nil_of_length_eq_zero (by simpa using hlength.symm)
              exact .single
          | cons second rest =>
              cases rest' with
              | nil => simp at hlength
              | cons second' rest' =>
                  rw [DirectiveSlot.between, DirectiveSlot.between] at h
                  obtain ⟨hgap, hothers⟩ := List.cons.inj h
                  refine .cons ?_ (ih (by simpa using hlength) hothers)
                  rw [isSplit, isSplit, hgap]

end CSharpTidy
