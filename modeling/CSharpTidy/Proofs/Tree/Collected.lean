import CSharpTidy.Proofs.Tree.Outline

/-!
# Where the directives of a tree come from

A step adds at most one directive to the scopes entered so far: the one that it takes, if it takes one in
the head of a scope. So the scopes of a tree hold the directives of those places, and no others.
-/

namespace CSharpTidy

theorem Tree.flatMap_scopes (tree : Tree) :
    tree.scopes.flatMap Scope.directives =
      tree.blocks.flatten.map ScopeDirective.ofDirective := by
  rw [List.flatMap_def, Tree.scopes_map_directives, List.map_flatten]

namespace Read

variable {found : Directive} {state state' last : State}
  {tokens segment rest left : List Token}

/-- Reading goes on from a state, in front of some tokens, to another, in front of what is left. -/
inductive Reaches : State → List Token → State → List Token → Prop
  | here {state : State} {tokens : List Token} : Reaches state tokens state tokens
  | step {state state' : State} {segment rest left : List Token} {role : Role}
      (hsegment : Segment state.isBraced rest segment role)
      (hrest : Reaches (role.act state) rest state' left) :
      Reaches state (segment ++ rest) state' left

namespace Reaches

theorem declarations_eq (h : Reaches state tokens state' left) (size : Nat) :
    declarations size state tokens = declarations size state' left := by
  induction h with
  | here => rfl
  | step hsegment _ ih => rw [hsegment.declarations_append, ih]

theorem exists_taken (h : Reaches state tokens state' left) : ∃ taken, tokens = taken ++ left := by
  induction h with
  | here => exact ⟨[], rfl⟩
  | @step _ _ segment _ _ _ _ _ ih =>
      obtain ⟨taken, rfl⟩ := ih
      exact ⟨segment ++ taken, (List.append_assoc _ _ _).symm⟩

theorem sound (h : Reaches state tokens state' left) (hsound : state.Sound) : state'.Sound := by
  induction h with
  | here => exact hsound
  | step _ _ ih => exact ih (State.sound_act hsound _)

end Reaches

/-- The directive that a step adds to the innermost open scope, if it adds one. -/
def Role.added (state : State) : Role → List Directive
  | directive found => if state.block.begun then [] else [found]
  | leave _ | externAlias | enter _ | begin => []

theorem mem_added_iff {role : Role} :
    found ∈ role.added state ↔ state.block.begun = false ∧ role = .directive found := by
  cases role with
  | directive found' =>
      cases hbegun : state.block.begun with
      | true => simp [Role.added, hbegun]
      | false => simp [Role.added, hbegun, eq_comm]
  | leave => simp [Role.added]
  | externAlias => simp [Role.added]
  | enter => simp [Role.added]
  | begin => simp [Role.added]

/-- A step adds what it takes behind all that has been collected so far. -/
theorem flatten_blocks_act (h : state.Sound) (role : Role) :
    (role.act state).blocks.flatten = state.blocks.flatten ++ role.added state := by
  cases role with
  | leave stop =>
      rw [Role.act, State.blocks_leave, Role.added, List.append_nil]
  | externAlias => rw [Role.act, Role.added, List.append_nil]
  | directive found =>
      cases hbegun : state.block.begun with
      | true => rw [Role.act, State.blocks_addDirective_late hbegun, Role.added, if_pos hbegun,
          List.append_nil]
      | false =>
          obtain ⟨hbefore, hafter⟩ := State.blocks_addDirective h hbegun found
          rw [Role.act, hafter, hbefore, Role.added, if_neg (by simp [hbegun])]
          simp
  | enter opened =>
      rw [Role.act, State.blocks_enter, Role.added, List.flatten_append, List.flatten_singleton]
  | begin =>
      rw [Role.added, List.append_nil]
      rfl

theorem Parse.mem_blocks (h : Parse state tokens last) (hsound : state.Sound)
    (hfound : found ∈ state.blocks.flatten) : found ∈ last.blocks.flatten := by
  induction h with
  | done => exact hfound
  | step _ _ ih =>
      refine ih (State.sound_act hsound _) ?_
      rw [flatten_blocks_act hsound]
      exact List.mem_append_left _ hfound

/-- A directive that is there in the end was there before, or is taken in the head of a scope. -/
theorem Parse.mem_or_reaches (h : Parse state tokens last) (hsound : state.Sound)
    (hfound : found ∈ last.blocks.flatten) :
    found ∈ state.blocks.flatten ∨ ∃ state' segment rest, Reaches state tokens state' (segment ++ rest) ∧
      state'.block.begun = false ∧ Segment state'.isBraced rest segment (.directive found) := by
  induction h with
  | done => exact .inl hfound
  | @step state last segment rest role hsegment _ ih =>
      obtain hact | ⟨state', segment', rest', hreaches, hbegun, hsegment'⟩ :=
        ih (State.sound_act hsound role) hfound
      · rw [flatten_blocks_act hsound, List.mem_append] at hact
        obtain hbefore | hadded := hact
        · exact .inl hbefore
        · obtain ⟨hbegun, rfl⟩ := mem_added_iff.mp hadded
          exact .inr ⟨state, segment, rest, .here, hbegun, hsegment⟩
      · exact .inr ⟨state', segment', rest', .step hsegment hreaches, hbegun, hsegment'⟩

theorem mem_blocks_close_iff (h : Parse {} tokens last) (size : Nat) :
    found ∈ (State.close size last.block last.outer).blocks.flatten ↔
      ∃ state segment rest, Reaches {} tokens state (segment ++ rest) ∧
        state.block.begun = false ∧ Segment state.isBraced rest segment (.directive found) := by
  have hfirst : State.Sound {} := fun _ => rfl
  rw [State.blocks_close size last.block last.outer last.late]
  constructor
  · intro hfound
    exact (h.mem_or_reaches hfirst hfound).resolve_left (by simp [State.blocks, Namespace.blocks])
  · rintro ⟨state, segment, rest, hreaches, hbegun, hsegment⟩
    -- what is left from there is read to the same tree as the whole
    have hread : declarations size ((Role.directive found).act state) rest =
        ⟨last.late, .ok (State.close size last.block last.outer)⟩ := by
      rw [← hsegment.declarations_append, ← hreaches.declarations_eq, h.declarations_eq]
    obtain ⟨last', hlast⟩ := exists_parse (congrArg Outcome.result hread)
    rw [hlast.declarations_eq, Outcome.mk.injEq, Except.ok.injEq] at hread
    have hblocks := congrArg Tree.blocks hread.2
    rw [State.blocks_close size last'.block last'.outer last'.late,
      State.blocks_close size last.block last.outer last.late] at hblocks
    rw [← hblocks]
    have hsound := hreaches.sound hfirst
    refine hlast.mem_blocks (State.sound_act hsound _) ?_
    rw [flatten_blocks_act hsound]
    exact List.mem_append_right _ (mem_added_iff.mpr ⟨hbegun, rfl⟩)

end Read

end CSharpTidy
