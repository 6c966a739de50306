import CSharpTidy.Proofs.Tree.Frame

/-!
# The layout of a file

The directives of one scope stand at its beginning, with nothing but comments and references to
external aliases between them. So a file is a list of chunks, one for each scope in the order in which
the scopes open: slots that hold directives, and a tail that runs to the opening of the next scope or
to the end. Filled with other directives of the same total width, the slots give a file whose reading
differs in the directives only.
-/

namespace CSharpTidy

def Directive.content (directive : Directive) : Text × DirectiveKind × Bool :=
  (directive.name, directive.kind, directive.isGlobal)

/-- A directive among pieces, what it says, and the gap in front of it. -/
structure DirectiveSlot where
  gap : List Piece
  body : List Piece
  content : Text × DirectiveKind × Bool

/-- The slots at the beginning of a scope and the pieces up to the opening of the next. -/
structure Chunk where
  slots : List DirectiveSlot
  tail : List Piece

namespace DirectiveSlot

def pieces (slot : DirectiveSlot) : List Piece := slot.gap ++ slot.body

/-- The body of a slot is read as a directive wherever it stands, and scans in any context. -/
structure Reads (slot : DirectiveSlot) : Prop where
  segment : ∀ offset, ∃ found : Directive,
    (∀ nested rest, Read.Segment nested rest (Piece.code offset slot.body) (.directive found)) ∧
      found.span = ⟨offset, offset + Piece.width slot.body⟩ ∧ found.content = slot.content
  opens : ∃ c text, Piece.spell slot.body = c :: text ∧ c.isAlphanum = true
  scans : ∀ rest lineStart, Piece.Scanned rest lineStart slot.body ∧
    Piece.lineStartAfter lineStart slot.body = false

end DirectiveSlot

def DirectiveSlot.all (slots : List DirectiveSlot) : List Piece := slots.flatMap DirectiveSlot.pieces

def Chunk.pieces (chunk : Chunk) : List Piece := DirectiveSlot.all chunk.slots ++ chunk.tail

def Chunk.all (chunks : List Chunk) : List Piece := chunks.flatMap Chunk.pieces

/-- Directives stand in slots that begin at an offset. -/
inductive DirectiveSlot.Holds : Nat → List DirectiveSlot → List Directive → Prop
  | nil {offset : Nat} : Holds offset [] []
  | cons {offset : Nat} {slot : DirectiveSlot} {directive : Directive} {slots : List DirectiveSlot}
      {directives : List Directive}
      (hspan : directive.span = ⟨offset + Piece.width slot.gap,
        offset + Piece.width slot.gap + Piece.width slot.body⟩)
      (hcontent : directive.content = slot.content)
      (hrest : Holds (offset + Piece.width slot.pieces) slots directives) :
      Holds offset (slot :: slots) (directive :: directives)

/-- The directives of scopes stand in chunks that begin at an offset. -/
inductive Chunk.Holds : Nat → List Chunk → List (List Directive) → Prop
  | nil {offset : Nat} : Holds offset [] []
  | cons {offset : Nat} {chunk : Chunk} {directives : List Directive} {chunks : List Chunk}
      {blocks : List (List Directive)} (hslots : DirectiveSlot.Holds offset chunk.slots directives)
      (hrest : Holds (offset + Piece.width chunk.pieces) chunks blocks) :
      Holds offset (chunk :: chunks) (directives :: blocks)

/-- The slots of a chunk hold other directives, the rest of it is the same. -/
structure Chunk.Refilled (chunk chunk' : Chunk) : Prop where
  tail : chunk'.tail = chunk.tail
  slots : List.Forall₂ (fun slot slot' : DirectiveSlot => slot'.gap = slot.gap ∧ slot'.Reads) chunk.slots
    chunk'.slots

/-- Other directives that take as many bytes altogether. -/
structure Chunk.Evenly (chunk chunk' : Chunk) : Prop extends Chunk.Refilled chunk chunk' where
  width : Piece.width (DirectiveSlot.all chunk'.slots) = Piece.width (DirectiveSlot.all chunk.slots)

namespace Read

open List (Forall₂)
open Piece (code width Framed Shifted)

/-- References to external aliases, one after another. -/
inductive Aliases : List Token → Prop
  | nil : Aliases []
  | cons {segment rest : List Token}
      (hsegment : ∀ nested rest, Segment nested rest segment .externAlias) (hrest : Aliases rest) :
      Aliases (segment ++ rest)

/-- What reading has met in scopes when the innermost has some more directives to come. -/
def State.grown (state : State) (directives : List Directive) : List (List Directive) :=
  if state.block.begun then state.blocks
  else state.earlier ++ [state.block.directives ++ directives]

def State.hollow (state : State) : State := state.redraw (fun _ => []) id

variable {state state' last : State} {pieces lead body after : List Piece} {offset : Nat}
  {first first' : Chunk} {others others' : List Chunk}

theorem State.grown_nil (h : state.Sound) : state.grown [] = state.blocks := by
  unfold State.grown
  split
  · rfl
  · next hbegun =>
      obtain ⟨hblocks, -⟩ := State.blocks_addDirective h (by simpa using hbegun) ⟨⟨0, 0⟩, [], ⟨0, 0⟩,
        .namespace, false⟩
      rw [hblocks, List.append_nil]

/-- Chunks that lay out what is left to read, and what reading them gives however they are
refilled. -/
structure Layout (state : State) (offset : Nat) (pieces : List Piece) (last : State)
    (first : Chunk) (others : List Chunk) : Prop where
  pieces_eq : pieces = Chunk.all (first :: others)
  reads : ∀ chunk ∈ first :: others, ∀ slot ∈ chunk.slots,
    slot.Reads ∧ ∀ offset, Aliases (code offset slot.gap)
  begun : state.block.begun = true → first.slots = []
  refill : ∀ (first' : Chunk) (others' : List Chunk) (offset' : Nat) (state' : State),
    first.Refilled first' → Forall₂ Chunk.Evenly others others' → state'.Sound →
      state'.hollow = state.hollow →
        offset' + width (DirectiveSlot.all first'.slots) = offset + width (DirectiveSlot.all first.slots) →
          (Stops (code offset pieces) → Stops (code offset' (Chunk.all (first' :: others')))) ∧
            ∃ last' directives blocks,
              Parse state' (code offset' (Chunk.all (first' :: others'))) last' ∧
                last'.hollow = last.hollow ∧ DirectiveSlot.Holds offset' first'.slots directives ∧
                  Chunk.Holds (offset' + width first'.pieces) others' blocks ∧
                    last'.blocks = state'.grown directives ++ blocks

theorem hollow_isBraced (h : state'.hollow = state.hollow) : state'.isBraced = state.isBraced := by
  rw [← isBraced_redraw (fun _ => []) id state', ← isBraced_redraw (fun _ => []) id state]
  exact congrArg State.isBraced h

theorem hollow_begun (h : state'.hollow = state.hollow) :
    state'.block.begun = state.block.begun := by
  have hbegun := congrArg (fun state : State => state.block.begun) h
  exact hbegun

theorem hollow_append (first second : List Directive) :
    (fun _ : List Directive => ([] : List Directive)) (first ++ second) =
      (fun _ => []) first ++ (fun _ => []) second := rfl

theorem chunk_all_tail (tail : List Piece) (others : List Chunk) :
    Chunk.all (⟨[], tail⟩ :: others) = tail ++ Chunk.all others := rfl

theorem Layout.done (hcode : code offset pieces = []) (hbraced : state.isBraced = false) :
    Layout state offset pieces state ⟨[], pieces⟩ [] where
  pieces_eq := by simp [Chunk.all, Chunk.pieces, DirectiveSlot.all]
  reads := by
    intro chunk hchunk slot hslot
    rw [List.mem_singleton.mp hchunk] at hslot
    cases hslot
  begun := fun _ => rfl
  refill := by
    intro first' others' offset' state' hfirst hothers hsound hhollow hoffset
    cases hothers
    obtain ⟨slots', tail'⟩ := first'
    obtain ⟨rfl, hslots⟩ := hfirst
    cases hslots
    obtain rfl : offset' = offset := by simpa using hoffset
    rw [chunk_all_tail, Chunk.all, List.flatMap_nil, List.append_nil, hcode]
    refine ⟨fun h => h, state', [], [], .done ((hollow_isBraced hhollow).trans hbraced), hhollow, .nil,
      .nil, ?_⟩
    rw [State.grown_nil hsound, List.append_nil]

theorem Segment.before {nested : Bool} {segment rest rest' : List Token} {role : Role}
    (h : Segment nested rest segment role) (hstops : Stops rest → Stops rest') :
    Segment nested rest' segment role := by
  cases h with
  | leave h hnested => exact .leave h hnested
  | externAlias h hnext hend => exact .externAlias h hnext hend
  | directive hopens hne hbody => exact .directive hopens hne hbody
  | enter h hheader => exact .enter h hheader
  | group h hinside => exact .group h hinside
  | member hmember hopen hplain => exact .member hmember (fun h => hstops (hopen h)) hplain

/-- A step that is none of a directive in time leaves the directives so far as they are. -/
structure Neutral (state : State) (role : Role) : Prop where
  begun : (role.act state).block.begun = true
  act : ∀ state' : State, state'.hollow = state.hollow →
    (role.act state').hollow = (role.act state).hollow ∧ (role.act state').blocks = state'.blocks

theorem neutral_leave (hbraced : state.isBraced = true) (stop : Nat) :
    Neutral state (.leave stop) where
  begun := by
    change (state.leave stop).block.begun = true
    unfold State.leave
    split
    · next houter =>
        unfold State.isBraced at hbraced
        rw [houter] at hbraced
        cases hbraced
    · rfl
  act state' h :=
    ⟨(Role.Agree.leave rfl).redraw_act hollow_append h, State.blocks_leave state' stop⟩

theorem neutral_begin : Neutral state .begin where
  begun := rfl
  act _ h := ⟨Role.Agree.begin.redraw_act hollow_append h, rfl⟩

theorem neutral_late (hbegun : state.block.begun = true) (found : Directive) :
    Neutral state (.directive found) where
  begun := by
    change (state.addDirective found).block.begun = true
    unfold State.addDirective
    rw [if_pos hbegun]
    exact hbegun
  act _ h :=
    ⟨(Role.Agree.directive rfl rfl).redraw_act hollow_append h,
      State.blocks_addDirective_late ((hollow_begun h).trans hbegun) found⟩

theorem code_pieces {lead body after : List Piece} {segment : List Token}
    (hlead : code offset lead = []) (hbody : Framed (offset + width lead) body segment) :
    code offset (lead ++ (body ++ after)) =
      segment ++ code (offset + width lead + width body) after := by
  rw [Piece.code_append, hlead, List.nil_append, Piece.code_append, hbody.code]

theorem stops_append_iff {segment rest : List Token} (hne : segment ≠ []) :
    Stops (segment ++ rest) ↔ Stops segment := by
  cases segment with
  | nil => exact absurd rfl hne
  | cons token segment => exact Iff.rfl

/-- A neutral step puts its pieces into the tail. -/
theorem Layout.neutral {segment : List Token} {role : Role} (hneutral : Neutral state role)
    (hlead : code offset lead = []) (hbody : Framed (offset + width lead) body segment)
    (hne : segment ≠ [])
    (hsegment : Segment state.isBraced (code (offset + width lead + width body) after) segment role)
    (h : Layout (role.act state) (offset + width lead + width body) after last first others) :
    Layout state offset (lead ++ (body ++ after)) last ⟨[], lead ++ (body ++ first.tail)⟩ others where
  pieces_eq := by
    rw [h.pieces_eq, chunk_all_tail, Chunk.all, List.flatMap_cons, Chunk.pieces,
      h.begun hneutral.begun]
    simp [DirectiveSlot.all, Chunk.all]
  reads := by
    intro chunk hchunk slot hslot
    rcases List.mem_cons.mp hchunk with rfl | hchunk
    · cases hslot
    · exact h.reads chunk (List.mem_cons_of_mem _ hchunk) slot hslot
  begun := fun _ => rfl
  refill := by
    intro first' others' offset' state' hfirst hothers hsound hhollow hoffset
    obtain ⟨slots', tail'⟩ := first'
    obtain ⟨rfl, hslots⟩ := hfirst
    cases hslots
    obtain rfl : offset' = offset := by simpa [DirectiveSlot.all] using hoffset
    -- behind a neutral step no directive is in time, so the first chunk has no slots
    have hempty := h.begun hneutral.begun
    obtain ⟨hnext, hblocks⟩ := hneutral.act state' hhollow
    have hrefilled : first.Refilled ⟨[], first.tail⟩ := ⟨rfl, by rw [hempty]; exact .nil⟩
    have hrest : Chunk.all (⟨[], lead ++ (body ++ first.tail)⟩ :: others') =
        lead ++ (body ++ Chunk.all (⟨[], first.tail⟩ :: others')) := by
      simp [chunk_all_tail]
    obtain ⟨hstops, last', directives, blocks, hparse, hlast, hholds, hmore, hgrown⟩ :=
      h.refill ⟨[], first.tail⟩ others' (offset' + width lead + width body) (role.act state') hrefilled
        hothers (State.sound_act hsound role) hnext (by rw [hempty])
    cases hholds
    rw [hrest, code_pieces hlead hbody, code_pieces hlead hbody]
    refine ⟨fun h => (stops_append_iff hne).mpr ((stops_append_iff hne).mp h), last', [], blocks, ?_,
      hlast, .nil, ?_, ?_⟩
    · refine .step ?_ hparse
      rw [hollow_isBraced hhollow]
      exact hsegment.before hstops
    · have hwidth : offset' + width (Chunk.pieces ⟨[], lead ++ (body ++ first.tail)⟩) =
          offset' + width lead + width body + width (Chunk.pieces ⟨[], first.tail⟩) := by
        simp [Chunk.pieces, DirectiveSlot.all, Nat.add_assoc]
      rw [hwidth]
      exact hmore
    · rw [hgrown, State.grown_nil hsound, State.grown_nil (State.sound_act hsound role), hblocks]

theorem Layout.enter {segment : List Token} {opened : Header} (hlead : code offset lead = [])
    (hbody : Framed (offset + width lead) body segment) (hne : segment ≠ [])
    (hsegment : Segment state.isBraced (code (offset + width lead + width body) after) segment
      (.enter opened))
    (hopen : ¬Stops segment)
    (h : Layout (state.enter opened) (offset + width lead + width body) after last first others) :
    Layout state offset (lead ++ (body ++ after)) last ⟨[], lead ++ body⟩ (first :: others) where
  pieces_eq := by
    rw [h.pieces_eq, chunk_all_tail, List.append_assoc]
  reads := by
    intro chunk hchunk slot hslot
    rcases List.mem_cons.mp hchunk with rfl | hchunk
    · cases hslot
    · exact h.reads chunk hchunk slot hslot
  begun := fun _ => rfl
  refill := by
    intro first' others' offset' state' hfirst hothers hsound hhollow hoffset
    obtain ⟨slots', tail'⟩ := first'
    obtain ⟨rfl, hslots⟩ := hfirst
    cases hslots
    obtain rfl : offset' = offset := by simpa [DirectiveSlot.all] using hoffset
    cases hothers with
    | @cons _ next' _ others' hnext hothers =>
        have hrest : Chunk.all (⟨[], lead ++ body⟩ :: next' :: others') =
            lead ++ (body ++ Chunk.all (next' :: others')) := by
          simp [chunk_all_tail]
        have hstate : (state'.enter opened).hollow = (state.enter opened).hollow :=
          (Role.Agree.enter rfl).redraw_act hollow_append hhollow
        obtain ⟨_, last', directives, blocks, hparse, hlast, hholds, hmore, hgrown⟩ :=
          h.refill next' others' (offset' + width lead + width body) (state'.enter opened)
            hnext.toRefilled hothers (State.sound_act hsound (.enter opened)) hstate
            (congrArg _ hnext.width)
        rw [hrest, code_pieces hlead hbody, code_pieces hlead hbody]
        refine ⟨fun h => absurd ((stops_append_iff hne).mp h) hopen, last', [],
          directives :: blocks, ?_, hlast, .nil, ?_, ?_⟩
        · have hstep : Segment state'.isBraced
              (code (offset' + width lead + width body) (Chunk.all (next' :: others'))) segment
              (.enter opened) := by
            rw [hollow_isBraced hhollow]
            cases hsegment with
            | enter hnamespace hheader => exact .enter hnamespace hheader
          exact .step hstep hparse
        · have hwidth : offset' + width (Chunk.pieces ⟨[], lead ++ body⟩) =
              offset' + width lead + width body := by
            simp [Chunk.pieces, DirectiveSlot.all, Nat.add_assoc]
          rw [hwidth]
          exact .cons hholds hmore
        · -- the scope that is entered begins with no directives of its own
          have hentered : (state'.enter opened).grown directives = state'.blocks ++ [directives] := by
            simp [State.grown, State.enter, State.earlier, State.blocks]
          rw [hgrown, State.grown_nil hsound, hentered, List.append_assoc]
          rfl

theorem code_eq_nil (h : code offset lead = []) (offset' : Nat) : code offset' lead = [] := by
  have hshifted := Piece.forall₂_shifted_code offset offset' lead
  rw [h] at hshifted
  exact List.forall₂_nil_left_iff.mp hshifted

theorem slot_all_cons (slot : DirectiveSlot) (slots : List DirectiveSlot) :
    DirectiveSlot.all (slot :: slots) = slot.pieces ++ DirectiveSlot.all slots := rfl

theorem chunk_all_cons (chunk : Chunk) (chunks : List Chunk) :
    Chunk.all (chunk :: chunks) = chunk.pieces ++ Chunk.all chunks := rfl

theorem State.hollow_addDirective (h : state.block.begun = false) (found : Directive) :
    (state.addDirective found).hollow = state.hollow := by
  unfold State.addDirective
  rw [if_neg (by simp [h])]
  rfl

theorem State.grown_addDirective (h : state.block.begun = false) (found : Directive)
    (directives : List Directive) :
    (state.addDirective found).grown directives = state.grown (found :: directives) := by
  unfold State.grown State.addDirective
  rw [if_neg (by simp [h]), if_neg (by simp [h]), if_neg (by simp [h])]
  simp [State.earlier]

theorem Layout.directive {found : Directive} (hbegun : state.block.begun = false)
    (hlead : code offset lead = []) (hopen : ¬Stops (code offset (lead ++ (body ++ after))))
    (hreads : DirectiveSlot.Reads ⟨lead, body, found.content⟩)
    (h : Layout (state.addDirective found) (offset + width lead + width body) after last first
      others) :
    Layout state offset (lead ++ (body ++ after)) last
      ⟨⟨lead, body, found.content⟩ :: first.slots, first.tail⟩ others where
  pieces_eq := by
    rw [h.pieces_eq]
    simp [Chunk.all, Chunk.pieces, DirectiveSlot.all, DirectiveSlot.pieces]
  reads := by
    intro chunk hchunk slot hslot
    rcases List.mem_cons.mp hchunk with rfl | hchunk
    · rcases List.mem_cons.mp hslot with rfl | hslot
      · refine ⟨hreads, fun offset' => ?_⟩
        rw [code_eq_nil hlead offset']
        exact .nil
      · exact h.reads first List.mem_cons_self slot hslot
    · exact h.reads chunk (List.mem_cons_of_mem _ hchunk) slot hslot
  begun := by
    intro hcontra
    rw [hbegun] at hcontra
    cases hcontra
  refill := by
    intro first' others' offset' state' hfirst hothers hsound hhollow hoffset
    obtain ⟨slots', tail'⟩ := first'
    obtain ⟨rfl, hslots⟩ := hfirst
    cases hslots with
    | @cons _ slot' _ slots' hslot hslots =>
        obtain ⟨gap', body', content'⟩ := slot'
        obtain ⟨rfl, hreads'⟩ := hslot
        have hbegun' : state'.block.begun = false := (hollow_begun hhollow).trans hbegun
        -- the slot may hold another directive by now, which is read from its own body
        obtain ⟨found', hsegment, hspan, hcontent⟩ := hreads'.segment (offset' + width gap')
        have hrest : Chunk.all (⟨⟨gap', body', content'⟩ :: slots', first.tail⟩ :: others') =
            gap' ++ (body' ++ Chunk.all (⟨slots', first.tail⟩ :: others')) := by
          simp [Chunk.all, Chunk.pieces, DirectiveSlot.all, DirectiveSlot.pieces]
        -- where it is shorter or longer, the slots behind make up for it
        have hwidth : offset' + width gap' + width body' + width (DirectiveSlot.all slots') =
            offset + width gap' + width body + width (DirectiveSlot.all first.slots) := by
          simp only [slot_all_cons, DirectiveSlot.pieces, Piece.width_append] at hoffset
          omega
        have hstate : (state'.addDirective found').hollow = (state.addDirective found).hollow := by
          rw [State.hollow_addDirective hbegun', State.hollow_addDirective hbegun, hhollow]
        obtain ⟨_, last', directives, blocks, hparse, hlast, hholds, hmore, hgrown⟩ :=
          h.refill ⟨slots', first.tail⟩ others' (offset' + width gap' + width body')
            (state'.addDirective found') ⟨rfl, hslots⟩ hothers
            (State.sound_act hsound (.directive found')) hstate hwidth
        refine ⟨fun h => absurd h hopen, last', found' :: directives, blocks, ?_, hlast, ?_, ?_, ?_⟩
        · rw [hrest, Piece.code_append, code_eq_nil hlead, List.nil_append, Piece.code_append]
          exact .step (hsegment _ _) hparse
        · refine .cons hspan hcontent ?_
          have hpieces : offset' + width (DirectiveSlot.pieces ⟨gap', body', content'⟩) =
              offset' + width gap' + width body' := by
            simp [DirectiveSlot.pieces, Nat.add_assoc]
          rw [hpieces]
          exact hholds
        · have hpieces : offset' + width (Chunk.pieces ⟨⟨gap', body', content'⟩ :: slots', first.tail⟩) =
              offset' + width gap' + width body' + width (Chunk.pieces ⟨slots', first.tail⟩) := by
            simp [Chunk.pieces, DirectiveSlot.all, DirectiveSlot.pieces, Nat.add_assoc]
          rw [hpieces]
          exact hmore
        · rw [hgrown, State.grown_addDirective hbegun']

def prepend (lead : List Piece) (chunk : Chunk) : Chunk :=
  match chunk.slots with
  | [] => ⟨[], lead ++ chunk.tail⟩
  | slot :: slots => ⟨{ slot with gap := lead ++ slot.gap } :: slots, chunk.tail⟩

theorem prepend_pieces (lead : List Piece) (chunk : Chunk) :
    (prepend lead chunk).pieces = lead ++ chunk.pieces := by
  obtain ⟨slots, tail⟩ := chunk
  cases slots <;> simp [prepend, Chunk.pieces, DirectiveSlot.all, DirectiveSlot.pieces]

theorem holds_prepend {chunk : Chunk} {directives : List Directive}
    (h : DirectiveSlot.Holds (offset + width lead) chunk.slots directives) :
    DirectiveSlot.Holds offset (prepend lead chunk).slots directives := by
  obtain ⟨slots, tail⟩ := chunk
  cases h with
  | nil => exact .nil
  | cons hspan hcontent hrest =>
      refine .cons ?_ hcontent ?_
      · rw [hspan]
        simp [Nat.add_assoc]
      · simpa [DirectiveSlot.pieces, Nat.add_assoc] using hrest

/-- However the chunk is refilled, what was put in front of it stays there. -/
theorem exists_of_refilled_prepend {chunk chunk' : Chunk}
    (h : (prepend lead chunk).Refilled chunk') :
    ∃ inner, chunk' = prepend lead inner ∧ chunk.Refilled inner ∧
      (inner.slots = [] ↔ chunk.slots = []) := by
  obtain ⟨slots, tail⟩ := chunk
  obtain ⟨slots', tail'⟩ := chunk'
  obtain ⟨rfl, hslots⟩ := h
  cases slots with
  | nil =>
      cases hslots
      exact ⟨⟨[], tail⟩, rfl, ⟨rfl, .nil⟩, Iff.rfl⟩
  | cons slot slots =>
      cases hslots with
      | @cons _ slot' _ slots' hslot hslots =>
          obtain ⟨gap', body', content'⟩ := slot'
          obtain ⟨rfl, hreads⟩ := hslot
          refine ⟨⟨⟨slot.gap, body', content'⟩ :: slots', tail⟩, rfl, ⟨rfl, .cons ⟨rfl, ?_⟩ hslots⟩, ?_⟩
          · exact ⟨hreads.segment, hreads.opens, hreads.scans⟩
          · simp

theorem width_prepend_slots (lead : List Piece) (chunk : Chunk) :
    width (DirectiveSlot.all (prepend lead chunk).slots) =
      (if chunk.slots = [] then 0 else width lead) + width (DirectiveSlot.all chunk.slots) := by
  obtain ⟨slots, tail⟩ := chunk
  cases slots <;> simp [prepend, DirectiveSlot.all, DirectiveSlot.pieces]

/-- The reference to an external alias goes into the gap in front of the next directive, or into the
tail. -/
theorem Layout.externAlias (hlead : code offset lead = [])
    (hsegment : ∀ offset nested rest, Segment nested rest (code offset body) .externAlias)
    (hopen : ¬Stops (code offset (lead ++ (body ++ after))))
    (h : Layout state (offset + width lead + width body) after last first others) :
    Layout state offset (lead ++ (body ++ after)) last (prepend (lead ++ body) first) others where
  pieces_eq := by
    rw [h.pieces_eq, chunk_all_cons, chunk_all_cons, prepend_pieces]
    simp
  reads := by
    intro chunk hchunk slot hslot
    rcases List.mem_cons.mp hchunk with rfl | hchunk
    · have hinner := h.reads first List.mem_cons_self
      obtain ⟨slots, tail⟩ := first
      cases slots with
      | nil => cases hslot
      | cons inner slots =>
          rcases List.mem_cons.mp hslot with rfl | hslot
          · obtain ⟨hreads, haliases⟩ := hinner inner List.mem_cons_self
            refine ⟨⟨hreads.segment, hreads.opens, hreads.scans⟩, fun offset' => ?_⟩
            rw [Piece.code_append, Piece.code_append, code_eq_nil hlead, List.nil_append]
            exact .cons (hsegment _) (haliases _)
          · exact hinner slot (List.mem_cons_of_mem _ hslot)
    · exact h.reads chunk (List.mem_cons_of_mem _ hchunk) slot hslot
  begun := by
    intro hbegun
    unfold prepend
    rw [h.begun hbegun]
  refill := by
    intro first' others' offset' state' hfirst hothers hsound hhollow hoffset
    -- the reference is in the gap of the first slot, and stays there
    obtain ⟨inner, rfl, hinner, hempty⟩ := exists_of_refilled_prepend hfirst
    rw [width_prepend_slots, width_prepend_slots] at hoffset
    simp only [hempty] at hoffset
    obtain ⟨_, last', directives, blocks, hparse, hlast, hholds, hmore, hgrown⟩ :=
      h.refill inner others' (offset' + width (lead ++ body)) state' hinner hothers hsound hhollow (by
        simp only [Piece.width_append]
        omega)
    refine ⟨fun h => absurd h hopen, last', directives, blocks, ?_, hlast, holds_prepend hholds, ?_,
      hgrown⟩
    · rw [chunk_all_cons, prepend_pieces, List.append_assoc, List.append_assoc, Piece.code_append,
        code_eq_nil hlead, List.nil_append, Piece.code_append]
      refine .step (hsegment _ _ _) ?_
      rw [Piece.width_append, ← Nat.add_assoc] at hparse
      exact hparse
    · rw [prepend_pieces, Piece.width_append, ← Nat.add_assoc]
      exact hmore

theorem lineStartAfter_concat_token (lineStart : Bool) (pieces : List Piece) (kind : TokenKind)
    (lexeme : Text) : Piece.lineStartAfter lineStart (pieces ++ [.token kind lexeme]) = false := by
  induction pieces generalizing lineStart with
  | nil => rfl
  | cons piece pieces ih => cases piece <;> exact ih _

theorem framed_at {segment : List Token} (h : Framed offset body segment) (offset' : Nat) :
    Framed offset' body (code offset' body) := by
  have hshifted := Piece.forall₂_shifted_code offset offset' body
  rw [h.code] at hshifted
  refine ⟨rfl, ?_, ?_⟩
  · intro token' hmem
    obtain ⟨token, htoken, hkind, hlexeme, hstart⟩ := forall₂_head? hshifted hmem
    obtain ⟨hoffset, after, hafter⟩ := h.first token htoken
    exact ⟨by omega, after, by rw [hafter, hkind, hlexeme]⟩
  · intro token' hmem
    obtain ⟨token, htoken, hkind, hlexeme, hstart⟩ := forall₂_getLast? hshifted hmem
    obtain ⟨hoffset, before, hbefore⟩ := h.last token htoken
    refine ⟨?_, before, by rw [hbefore, hkind, hlexeme]⟩
    rw [Token.stop] at hoffset ⊢
    rw [← hlexeme]
    omega

theorem reads_of_segment {nested : Bool} {segment rest : List Token} {found : Directive}
    {text : Text} {lineStart : Bool} (hbody : Framed offset body segment)
    (hsegment : Segment nested rest segment (.directive found))
    (hscanned : Piece.Scanned text lineStart body) :
    DirectiveSlot.Reads ⟨lead, body, found.content⟩ := by
  obtain ⟨first, hfirst, last, hlast, hword, hmark, hspan, hanywhere⟩ := hsegment.of_directive
  obtain ⟨hstart, after, hafter⟩ := hbody.first first hfirst
  obtain ⟨hstop, before, hbefore⟩ := hbody.last last hlast
  have hkind : first.kind = .identifier := by
    rcases hword with hword | hword <;> exact (Token.isWord_iff.mp hword).1
  refine ⟨fun offset' => ?_, ?_, fun rest' lineStart' => ⟨?_, ?_⟩⟩
  · have hshifted := Piece.forall₂_shifted_code offset offset' body
    rw [hbody.code] at hshifted
    have hstops : Stops rest → Stops rest := fun h => h
    obtain ⟨role', hsegment', hrole⟩ :=
      hsegment.moved (Piece.keeps_shifted offset offset') hshifted hstops
    cases hrole with
    | @directive _ found' hmoved =>
        obtain ⟨first', hfirst', last', hlast', _, _, hspan', hanywhere'⟩ := hsegment'.of_directive
        have hframed := framed_at hbody offset'
        refine ⟨found', hanywhere', ?_, ?_⟩
        · rw [hspan', (hframed.first first' hfirst').1, (hframed.last last' hlast').1]
        · rw [Directive.content, Directive.content, hmoved.name, hmoved.kind, hmoved.isGlobal]
  · rw [hafter]
    rcases hword with hword | hword
    · rw [(Token.isWord_iff.mp hword).2]
      exact ⟨'g', "lobal".toList ++ Piece.spell after, rfl, rfl⟩
    · rw [(Token.isWord_iff.mp hword).2]
      exact ⟨'u', "sing".toList ++ Piece.spell after, rfl, rfl⟩
  · -- the body ends with a semicolon, behind which the scanner starts afresh
    have hclosed : Piece.Scanned rest' lineStart body := by
      rw [hbefore] at hscanned ⊢
      refine hscanned.of_isClosed ?_ rest'
      rw [Token.isMark_iff.mp hmark]
      rfl
    simp only
    rw [hafter] at hclosed ⊢
    refine ⟨hclosed.1.at (fun h => ?_) (fun h => ?_), hclosed.2⟩
    · rw [hkind] at h
      cases h
    · rw [hkind] at h
      cases h
  · simp only
    rw [hbefore]
    exact lineStartAfter_concat_token _ _ _ _

theorem not_stops_of_isWord {segment rest : List Token} {token : Token} {word : String}
    (htoken : token ∈ segment.head?) (hword : token.isWord word = true) :
    ¬Stops (segment ++ rest) := by
  intro h
  cases segment with
  | nil => cases htoken
  | cons first segment =>
      cases htoken
      have hmark := h token rfl
      rw [Token.isMark_of_isWord hword] at hmark
      cases hmark

/-- **The layout of a file.** What is read to the end is laid out in chunks. -/
theorem exists_layout {tokens : List Token} {lineStart : Bool} (hparse : Parse state tokens last)
    (hsound : state.Sound) (hcode : code offset pieces = tokens)
    (hscanned : Piece.Scanned [] lineStart pieces) :
    ∃ first others, Layout state offset pieces last first others := by
  induction hparse generalizing offset pieces lineStart with
  | done hbraced => exact ⟨_, _, .done hcode hbraced⟩
  | @step state last segment rest role hsegment hrest ih =>
      have hne : segment ≠ [] := by
        rintro rfl
        cases hsegment
      -- each step takes its segment out of the pieces, with what is not seen in front
      obtain ⟨lead, body, after, rfl, hlead, hbody, hafter⟩ := Piece.exists_cut hcode hne
      obtain ⟨_, hscannedRest⟩ := Piece.scanned_append.mp hscanned
      obtain ⟨hscannedBody, hscannedAfter⟩ := Piece.scanned_append.mp hscannedRest
      obtain ⟨first, others, hlayout⟩ :=
        ih (State.sound_act hsound role) hafter hscannedAfter
      have hsegment' : Segment state.isBraced (code (offset + width lead + width body) after) segment
          role := hafter ▸ hsegment
      have hwhole : code offset (lead ++ (body ++ after)) =
          segment ++ code (offset + width lead + width body) after := code_pieces hlead hbody
      cases role with
      | leave stop =>
          have hbraced : state.isBraced = true := by
            cases hsegment with
            | leave _ hnested => exact hnested
          exact ⟨_, _, .neutral (neutral_leave hbraced stop) hlead hbody hne hsegment' hlayout⟩
      | externAlias =>
          obtain ⟨⟨token, htoken, hword⟩, _, hanywhere⟩ := hsegment.of_externAlias
          refine ⟨_, _, .externAlias hlead (fun offset' nested rest' => ?_) ?_ hlayout⟩
          · have hshifted := Piece.forall₂_shifted_code (offset + width lead) offset' body
            rw [hbody.code] at hshifted
            have hstops : Stops rest → Stops rest := fun h => h
            obtain ⟨role', hmoved, hrole⟩ :=
              (hanywhere nested rest).moved (Piece.keeps_shifted _ _) hshifted hstops
            cases hrole
            exact hmoved.of_externAlias.2.2 nested rest'
          · rw [hwhole]
            exact not_stops_of_isWord htoken hword
      | directive found =>
          cases hbegun : state.block.begun with
          | true =>
              exact ⟨_, _, .neutral (neutral_late hbegun found) hlead hbody hne hsegment' hlayout⟩
          | false =>
              obtain ⟨token, htoken, _, _, hword, _⟩ := hsegment.of_directive
              refine ⟨_, _, .directive hbegun hlead ?_ (reads_of_segment hbody hsegment hscannedBody)
                hlayout⟩
              rw [hwhole]
              rcases hword with hword | hword <;> exact not_stops_of_isWord htoken hword
      | enter opened =>
          refine ⟨_, _, .enter hlead hbody hne hsegment' ?_ hlayout⟩
          cases hsegment with
          | @enter token tokens _ hnamespace hheader =>
              intro hstops
              have hmark := hstops token rfl
              rw [Token.isMark_of_isWord hnamespace] at hmark
              cases hmark
      | begin => exact ⟨_, _, .neutral neutral_begin hlead hbody hne hsegment' hlayout⟩

end Read

end CSharpTidy
