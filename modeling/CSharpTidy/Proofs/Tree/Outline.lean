import CSharpTidy.Scope
import CSharpTidy.Proofs.Tree.Segment

/-!
# Trees without their directives, and directives without their tree

What reading builds falls into two parts that grow apart from each other. `redraw` keeps the nesting
of a tree and changes directives and offsets wholesale; `blocks` lists the directives of every scope,
outer scopes first. Steps that do alike things keep states alike in the one, and `blocks` grows at its
end only.
-/

namespace CSharpTidy

namespace Namespace

/-- Namespaces with their directives and offsets changed. -/
def redraw (list : List Directive → List Directive) (place : Nat → Nat) :
    List Namespace → List Namespace
  | [] => []
  | ⟨name, span, fileScoped, directives, inner⟩ :: rest =>
      ⟨name, ⟨place span.start, place span.stop⟩, fileScoped, list directives,
        redraw list place inner⟩ :: redraw list place rest

/-- The directives of each namespace, outer namespaces first. -/
def blocks : List Namespace → List (List Directive)
  | [] => []
  | ⟨_, _, _, directives, inner⟩ :: rest => directives :: blocks inner ++ blocks rest

variable {list : List Directive → List Directive} {place : Nat → Nat}

theorem redraw_append (first second : List Namespace) :
    redraw list place (first ++ second) = redraw list place first ++ redraw list place second := by
  induction first with
  | nil => rw [redraw, List.nil_append, List.nil_append]
  | cons declaration first ih =>
      cases declaration
      rw [List.cons_append, redraw, redraw, ih, List.cons_append]

theorem blocks_append (first second : List Namespace) :
    blocks (first ++ second) = blocks first ++ blocks second := by
  induction first with
  | nil => rw [blocks, List.nil_append, List.nil_append]
  | cons declaration first ih =>
      cases declaration
      rw [List.cons_append, blocks, blocks, ih, List.cons_append, List.append_assoc]
      rfl

theorem redraw_id (declarations : List Namespace) : redraw id id declarations = declarations := by
  match declarations with
  | [] => rw [redraw]
  | ⟨name, span, fileScoped, directives, inner⟩ :: rest =>
      rw [redraw, redraw_id inner, redraw_id rest]
      rfl

theorem blocks_redraw (list : List Directive → List Directive) (place : Nat → Nat)
    (declarations : List Namespace) :
    blocks (redraw list place declarations) = (blocks declarations).map list := by
  match declarations with
  | [] => rw [redraw, blocks, List.map_nil]
  | ⟨name, span, fileScoped, directives, inner⟩ :: rest =>
      rw [redraw, blocks, blocks_redraw list place inner, blocks_redraw list place rest, blocks,
        List.map_append, List.map_cons]

theorem scopes_append (first second : List Namespace) :
    scopes (first ++ second) = scopes first ++ scopes second := by
  match first with
  | [] => rw [List.nil_append, scopes, List.nil_append]
  | declaration :: first =>
      have hsmaller : count (declaration.namespaces ++ first) < count (declaration :: first) := by
        cases declaration
        simp only [count_append, count]
        omega
      rw [List.cons_append, scopes, scopes, ← List.append_assoc, scopes_append _ second,
        List.cons_append]
termination_by count first

theorem scopes_map_directives (declarations : List Namespace) :
    (scopes declarations).map Scope.directives =
      (blocks declarations).map (List.map ScopeDirective.ofDirective) := by
  match declarations with
  | [] => rw [scopes, blocks, List.map_nil, List.map_nil]
  | ⟨name, span, fileScoped, directives, inner⟩ :: rest =>
      rw [scopes, blocks, scopes_append, List.map_cons, List.map_append, List.cons_append,
        List.map_cons, List.map_append, scopes_map_directives inner, scopes_map_directives rest]
      rfl

end Namespace

def Directive.unplaced (directives : List Directive) : List Directive :=
  directives.map fun directive => { directive with span := ⟨0, 0⟩, nameSpan := ⟨0, 0⟩ }

namespace Tree

/-- A tree with its directives and offsets changed. -/
def redraw (list : List Directive → List Directive) (place : Nat → Nat) (tree : Tree) : Tree :=
  ⟨⟨place tree.span.start, place tree.span.stop⟩, list tree.directives,
    Namespace.redraw list place tree.namespaces⟩

/-- The directives of the file and of each namespace, outer ones first. -/
def blocks (tree : Tree) : List (List Directive) :=
  tree.directives :: Namespace.blocks tree.namespaces

/-- The namespaces of a tree and where they stand. -/
def skeleton (tree : Tree) : Tree := tree.redraw (fun _ => []) id

def unplaced (tree : Tree) : Tree := tree.redraw Directive.unplaced fun _ => 0

theorem redraw_id (tree : Tree) : tree.redraw id id = tree := by
  rw [redraw, Namespace.redraw_id]
  rfl

theorem blocks_redraw (list : List Directive → List Directive) (place : Nat → Nat) (tree : Tree) :
    (tree.redraw list place).blocks = tree.blocks.map list := by
  rw [blocks, redraw, Namespace.blocks_redraw]
  rfl

theorem scopes_map_directives (tree : Tree) :
    tree.scopes.map Scope.directives =
      tree.blocks.map (List.map ScopeDirective.ofDirective) := by
  rw [scopes, List.map_cons, Namespace.scopes_map_directives, blocks, List.map_cons]
  rfl

theorem blocks_of_isEmpty {tree : Tree} (h : tree.namespaces.isEmpty = true) :
    tree.blocks = [tree.directives] := by
  rw [blocks, List.isEmpty_iff.mp h, Namespace.blocks]

theorem scopes_of_isEmpty {tree : Tree} (h : tree.namespaces.isEmpty = true) :
    tree.scopes = [tree.fileScope] := by
  rw [scopes, List.isEmpty_iff.mp h, Namespace.scopes]

end Tree

namespace Read

variable {list : List Directive → List Directive} {place : Nat → Nat} {state state' : State}
  {role role' : Role}

def Header.redraw (place : Nat → Nat) (header : Header) : Header :=
  { header with start := place header.start }

def Block.redraw (list : List Directive → List Directive) (place : Nat → Nat) (block : Block) :
    Block :=
  ⟨list block.directives, Namespace.redraw list place block.namespaces, block.begun⟩

namespace State

def redraw (list : List Directive → List Directive) (place : Nat → Nat) (state : State) : State :=
  ⟨state.block.redraw list place,
    state.outer.map fun level => (level.1.redraw place, level.2.redraw list place), state.late⟩

/-- The directives of the scopes entered so far, in the order of entering. -/
def blocks (state : State) : List (List Directive) :=
  (state.outer.reverse.flatMap fun level =>
      level.2.directives :: Namespace.blocks level.2.namespaces) ++
    (state.block.directives :: Namespace.blocks state.block.namespaces)

/-- The directives of the scopes entered before the innermost open one. -/
def earlier (state : State) : List (List Directive) :=
  state.outer.reverse.flatMap fun level =>
    level.2.directives :: Namespace.blocks level.2.namespaces

/-- Namespaces come only after something other than a directive. -/
def Sound (state : State) : Prop := state.block.begun = false → state.block.namespaces = []

theorem sound_act (h : state.Sound) (role : Role) : (role.act state).Sound := by
  cases role with
  | leave stop =>
      change (state.leave stop).Sound
      unfold leave
      split
      · exact h
      · exact fun hbegun => Bool.noConfusion hbegun
  | externAlias => exact h
  | directive found =>
      change (state.addDirective found).Sound
      unfold addDirective
      split <;> exact h
  | enter opened => exact fun _ => rfl
  | begin => exact fun hbegun => Bool.noConfusion hbegun

theorem blocks_addDirective (h : state.Sound) (hbegun : state.block.begun = false)
    (found : Directive) :
    state.blocks = state.earlier ++ [state.block.directives] ∧
      (state.addDirective found).blocks =
        state.earlier ++ [state.block.directives ++ [found]] := by
  unfold addDirective blocks earlier
  simp [hbegun, h hbegun, Namespace.blocks]

theorem blocks_addDirective_late (hbegun : state.block.begun = true) (found : Directive) :
    (state.addDirective found).blocks = state.blocks := by
  unfold addDirective blocks
  simp [hbegun]

theorem blocks_enter (opened : Header) : (state.enter opened).blocks = state.blocks ++ [[]] := by
  unfold enter blocks
  simp [Namespace.blocks]

theorem blocks_leave (state : State) (stop : Nat) : (state.leave stop).blocks = state.blocks := by
  unfold leave
  split
  · rfl
  · next opened block outer houter =>
      unfold blocks addNamespace
      simp [houter, Namespace.blocks_append, Namespace.blocks]

theorem blocks_close (size : Nat) (block : Block) (outer : List (Header × Block)) (late : List Text) :
    (close size block outer).blocks = State.blocks ⟨block, outer, late⟩ := by
  induction outer generalizing block with
  | nil => rfl
  | cons level outer ih =>
      rw [close, ih]
      exact blocks_leave ⟨block, level :: outer, late⟩ size

end State

/-- Two steps that change a state alike, directives and offsets aside. -/
inductive Role.Agree (list : List Directive → List Directive) (place : Nat → Nat) :
    Role → Role → Prop
  | leave {stop stop' : Nat} (h : place stop = place stop') :
      Agree list place (.leave stop) (.leave stop')
  | externAlias : Agree list place .externAlias .externAlias
  | directive {found found' : Directive} (hname : found.name = found'.name)
      (h : list [found] = list [found']) : Agree list place (.directive found) (.directive found')
  | enter {opened opened' : Header} (h : opened.redraw place = opened'.redraw place) :
      Agree list place (.enter opened) (.enter opened')
  | begin : Agree list place .begin .begin

theorem isBraced_redraw (list : List Directive → List Directive) (place : Nat → Nat)
    (state : State) : (state.redraw list place).isBraced = state.isBraced := by
  cases houter : state.outer <;> simp [State.isBraced, State.redraw, houter, Header.redraw]

/-- States that look alike once redrawn still do so after steps that agree. -/
theorem Role.Agree.redraw_act (hrole : Role.Agree list place role role')
    (hlist : ∀ first second, list (first ++ second) = list first ++ list second)
    (h : state.redraw list place = state'.redraw list place) :
    (role.act state).redraw list place = (role'.act state').redraw list place := by
  obtain ⟨⟨directives, namespaces, begun⟩, outer, late⟩ := state
  obtain ⟨⟨directives', namespaces', begun'⟩, outer', late'⟩ := state'
  simp only [State.redraw, Block.redraw, State.mk.injEq, Block.mk.injEq] at h
  obtain ⟨⟨hdirectives, hnamespaces, rfl⟩, houter, rfl⟩ := h
  cases hrole with
  | @leave stop stop' hstop =>
      cases outer with
      | nil =>
          obtain rfl : outer' = [] := by simpa using houter.symm
          simp only [Role.act, State.leave, State.redraw, Block.redraw, hdirectives, hnamespaces]
      | cons level outer =>
          cases outer' with
          | nil => cases houter
          | cons level' outer' =>
              obtain ⟨⟨start, name, fileScoped⟩, around⟩ := level
              obtain ⟨⟨start', name', fileScoped'⟩, around'⟩ := level'
              simp only [List.map_cons, List.cons.injEq, Prod.mk.injEq, Header.redraw,
                Header.mk.injEq, Block.mk.injEq] at houter
              obtain ⟨⟨⟨hstart, rfl, rfl⟩, hd, hn, hb⟩, houter⟩ := houter
              simp only [Role.act, State.leave, State.redraw, Block.redraw, State.addNamespace,
                Namespace.redraw_append, Namespace.redraw, hd, hn, hdirectives, hnamespaces, hstart,
                hstop]
              simp only [Header.redraw, houter]
  | externAlias =>
      simp only [Role.act, State.redraw, Block.redraw, hdirectives, hnamespaces, houter]
  | directive hname hfound =>
      -- a directive in time is added, one that comes late leaves its name only
      cases begun with
      | false =>
          simp only [Role.act, State.addDirective, State.redraw, Block.redraw, hlist, hdirectives,
            hnamespaces, houter, hfound, if_false, Bool.false_eq_true]
      | true =>
          simp only [Role.act, State.addDirective, State.redraw, Block.redraw, hdirectives,
            hnamespaces, houter, hname, if_true]
  | enter hopened =>
      simp only [Role.act, State.enter, State.redraw, Block.redraw, List.map_cons, hopened,
        hdirectives, hnamespaces, houter]
  | begin =>
      simp only [Role.act, State.begin, State.redraw, Block.redraw, hdirectives, hnamespaces,
        houter]

theorem redraw_close {size size' : Nat} {block block' : Block} {outer outer' : List (Header × Block)}
    (hlist : ∀ first second, list (first ++ second) = list first ++ list second)
    (hsize : place size = place size')
    (hblock : block.redraw list place = block'.redraw list place)
    (houter : outer.map (fun level => (level.1.redraw place, level.2.redraw list place)) =
      outer'.map fun level => (level.1.redraw place, level.2.redraw list place)) :
    (State.close size block outer).redraw list place =
      (State.close size' block' outer').redraw list place := by
  induction outer generalizing block block' outer' with
  | nil =>
      obtain rfl : outer' = [] := by simpa using houter.symm
      simp only [Block.redraw, Block.mk.injEq] at hblock
      simp only [State.close, Tree.redraw, hsize, hblock]
  | cons level outer ih =>
      cases outer' with
      | nil => cases houter
      | cons level' outer' =>
          have hleft : (State.leave ⟨block, level :: outer, []⟩ size).redraw list place =
              (State.leave ⟨block', level' :: outer', []⟩ size').redraw list place :=
            (Role.Agree.leave hsize).redraw_act hlist (by
              rw [State.redraw, State.redraw, hblock, houter])
          simp only [State.redraw, State.mk.injEq] at hleft
          rw [State.close, State.close]
          exact ih hleft.1 hleft.2.1

end Read

end CSharpTidy
