import CSharpTidy.Tree.Basic

namespace CSharpTidy

/-- A directive as an order sees it. -/
structure ScopeDirective where
  sortKey : Text
  span : Span
  isAlias : Bool
  /-- Global directives stand before all others. -/
  isGlobal : Bool
deriving DecidableEq, Repr

inductive ScopeKind where
  | file
  | namespace
deriving DecidableEq, Repr

/-- A file or a namespace with the directives that stand directly in it, in source order. -/
structure Scope where
  kind : ScopeKind
  name : Option Text
  span : Span
  directives : List ScopeDirective
deriving DecidableEq, Repr

namespace ScopeDirective

def ofDirective (directive : Directive) : ScopeDirective :=
  ⟨directive.name, directive.span, directive.isAlias, directive.isGlobal⟩

end ScopeDirective

namespace Scope

def block? (scope : Scope) : Option Span :=
  match scope.directives.head?, scope.directives.getLast? with
  | some first, some last => some (first.span.cover last.span)
  | _, _ => none

def ofNamespace (declaration : Namespace) : Scope :=
  ⟨.namespace, some declaration.name, declaration.span,
    declaration.directives.map ScopeDirective.ofDirective⟩

end Scope

namespace Namespace

/-- How many namespaces there are, inner ones included. -/
def count : List Namespace → Nat
  | [] => 0
  | ⟨_, _, _, _, inner⟩ :: rest => 1 + count inner + count rest

theorem count_append (first second : List Namespace) :
    count (first ++ second) = count first + count second := by
  induction first with
  | nil => simp [count]
  | cons declaration first ih =>
      cases declaration
      rw [List.cons_append, count, count, ih]
      omega

/-- The scopes of waiting namespaces. Those inside a namespace wait in front of its siblings. -/
def scopes : List Namespace → List Scope
  | [] => []
  | declaration :: waiting =>
      Scope.ofNamespace declaration :: scopes (declaration.namespaces ++ waiting)
termination_by waiting => count waiting
decreasing_by
  cases declaration
  simp only [count_append, count]
  omega

end Namespace

namespace Tree

def fileScope (tree : Tree) : Scope :=
  ⟨.file, none, tree.span, tree.directives.map ScopeDirective.ofDirective⟩

/-- The file scope and then every namespace, outer ones first. -/
def scopes (tree : Tree) : List Scope := tree.fileScope :: Namespace.scopes tree.namespaces

end Tree

end CSharpTidy
