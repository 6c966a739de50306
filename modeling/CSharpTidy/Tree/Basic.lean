import CSharpTidy.Text.Span

namespace CSharpTidy

inductive DirectiveKind where
  | namespace
  | static
  | alias (name : Text)
deriving DecidableEq, Repr

/-- A using directive. The name is what it imports, without blanks and comments. -/
structure Directive where
  /-- From the first keyword through the semicolon. -/
  span : Span
  name : Text
  nameSpan : Span
  kind : DirectiveKind
  isGlobal : Bool
deriving DecidableEq, Repr

namespace Directive

def isAlias (directive : Directive) : Bool :=
  match directive.kind with
  | .alias _ => true
  | _ => false

end Directive

/-- A namespace. A file-scoped one has no braces and runs to the end of the file. -/
structure Namespace where
  name : Text
  span : Span
  fileScoped : Bool
  directives : List Directive
  namespaces : List Namespace

structure Tree where
  span : Span
  directives : List Directive
  namespaces : List Namespace

def Namespace.allDirectives : List Namespace → List Directive
  | [] => []
  | ⟨_, _, _, directives, inner⟩ :: rest =>
      directives ++ allDirectives inner ++ allDirectives rest

/-- Every directive of a file in source order. -/
def Tree.allDirectives (tree : Tree) : List Directive :=
  (tree.directives ++ Namespace.allDirectives tree.namespaces).mergeSort
    fun first second => decide (first.span.start ≤ second.span.start)

end CSharpTidy
