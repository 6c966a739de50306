import CSharpTidy.Proofs.Tree.Nesting

/-!
# The scopes of a tree

The walk over a tree keeps a list of namespaces that wait. It meets the file and then every namespace at
every depth, each before those inside it. So a scope is told by its place in the walk, and its directives
can be changed there.
-/

namespace CSharpTidy

namespace Namespace

theorem scopes_eq_map_everywhere (declarations : List Namespace) :
    scopes declarations = (everywhere declarations).map Scope.ofNamespace := by
  match declarations with
  | [] => rw [scopes, everywhere, List.map_nil]
  | ⟨name, span, fileScoped, directives, inner⟩ :: rest =>
      rw [scopes, scopes_append, scopes_eq_map_everywhere inner, scopes_eq_map_everywhere rest,
        everywhere, List.cons_append, List.map_cons, List.map_append]

/-- Namespaces with other directives in one of them, inner namespaces included. -/
def withDirectives (directives : List Directive) : Nat → List Namespace → List Namespace
  | _, [] => []
  | 0, ⟨name, span, fileScoped, _, inner⟩ :: rest => ⟨name, span, fileScoped, directives, inner⟩ :: rest
  | index + 1, ⟨name, span, fileScoped, own, inner⟩ :: rest =>
      if index < count inner then
        ⟨name, span, fileScoped, own, withDirectives directives index inner⟩ :: rest
      else
        ⟨name, span, fileScoped, own, inner⟩ :: withDirectives directives (index - count inner) rest
termination_by _ declarations => count declarations
decreasing_by
  · simp only [count]
    omega
  · simp only [count]
    omega

theorem length_everywhere (declarations : List Namespace) :
    (everywhere declarations).length = count declarations := by
  match declarations with
  | [] => rw [everywhere, count, List.length_nil]
  | ⟨name, span, fileScoped, directives, inner⟩ :: rest =>
      rw [everywhere, count, List.length_append, List.length_cons, length_everywhere inner,
        length_everywhere rest]
      omega

end Namespace

def Scope.withDirectives (directives : List Directive) (scope : Scope) : Scope :=
  { scope with directives := directives.map .ofDirective }

namespace Namespace

theorem append_eq_append_cons {α : Type} {first second front back : List α} {member : α}
    (h : first ++ second = front ++ member :: back) :
    (∃ behind, first = front ++ member :: behind ∧ back = behind ++ second) ∨
      ∃ others, front = first ++ others ∧ second = others ++ member :: back := by
  rcases List.append_eq_append_iff.mp h with hright | ⟨_ | ⟨found, behind⟩, hfirst, hsecond⟩
  · exact .inr hright
  · exact .inr ⟨[], by simpa using hfirst.symm, by simpa using hsecond.symm⟩
  · obtain ⟨rfl, rfl⟩ := List.cons.inj hsecond
    exact .inl ⟨behind, hfirst, rfl⟩

theorem scopes_withDirectives {front back : List Scope} {scope : Scope} (directives : List Directive)
    (declarations : List Namespace) (h : scopes declarations = front ++ scope :: back) :
    scopes (withDirectives directives front.length declarations) =
      front ++ scope.withDirectives directives :: back := by
  match declarations, front with
  | [], front => simp [scopes] at h
  | ⟨name, span, fileScoped, own, inner⟩ :: rest, [] =>
      rw [scopes, List.nil_append, List.cons.injEq] at h
      obtain ⟨rfl, hback⟩ := h
      rw [List.length_nil, withDirectives, scopes, hback]
      rfl
  | ⟨name, span, fileScoped, own, inner⟩ :: rest, first :: front =>
      rw [scopes, scopes_append, List.cons_append, List.cons.injEq] at h
      obtain ⟨rfl, h⟩ := h
      have hlength : (scopes inner).length = count inner := by
        rw [scopes_eq_map_everywhere, List.length_map, length_everywhere]
      rw [List.length_cons, withDirectives]
      rcases append_eq_append_cons h with ⟨behind, hinner, rfl⟩ | ⟨others, rfl, hrest⟩
      · have hinside : front.length < count inner := by
          rw [← hlength, hinner, List.length_append, List.length_cons]
          omega
        rw [if_pos hinside, scopes, scopes_append, scopes_withDirectives directives inner hinner]
        simp [Scope.ofNamespace]
      · have houtside : ¬(scopes inner ++ others).length < count inner := by
          rw [List.length_append, hlength]
          omega
        rw [if_neg houtside, scopes, scopes_append, List.length_append, hlength,
          Nat.add_sub_cancel_left, scopes_withDirectives directives rest hrest]
        simp

end Namespace

namespace Tree

/-- The file scope and the scope of every namespace at every depth, outer ones first. -/
def everyScope (tree : Tree) : List Scope :=
  tree.fileScope :: (Namespace.everywhere tree.namespaces).map Scope.ofNamespace

theorem scopes_eq_everyScope (tree : Tree) : tree.scopes = tree.everyScope := by
  rw [scopes, Namespace.scopes_eq_map_everywhere, everyScope]

/-- A tree with other directives in one of its scopes. -/
def withDirectives (directives : List Directive) (index : Nat) (tree : Tree) : Tree :=
  match index with
  | 0 => { tree with directives }
  | index + 1 => { tree with namespaces := Namespace.withDirectives directives index tree.namespaces }

theorem scopes_withDirectives {tree : Tree} {front back : List Scope} {scope : Scope}
    (directives : List Directive) (h : tree.scopes = front ++ scope :: back) :
    (tree.withDirectives directives front.length).scopes =
      front ++ scope.withDirectives directives :: back := by
  cases front with
  | nil =>
      rw [scopes, List.nil_append, List.cons.injEq] at h
      obtain ⟨rfl, rfl⟩ := h
      rfl
  | cons first front =>
      rw [scopes, List.cons_append, List.cons.injEq] at h
      obtain ⟨rfl, h⟩ := h
      rw [List.length_cons, withDirectives, scopes, Namespace.scopes_withDirectives directives _ h]
      rfl

end Tree

end CSharpTidy
