import CSharpTidy.Rule.Basic
import CSharpTidy.OrderPolicy

namespace CSharpTidy

namespace DirectiveOrder

def disordered (policy : OrderPolicy) (tree : Tree) : List Scope :=
  tree.scopes.filter fun scope => !policy.isSorted scope.directives

/-- Whether a preprocessor line stands between two directives. Text that does not scan counts as
one. -/
def isSplit (text : Text) (first second : ScopeDirective) : Bool :=
  match tokenize (text.slice first.span.stop second.span.start) with
  | .ok tokens => tokens.any fun token => token.kind == .preprocessor
  | .error _ => true

/-- The runs of directives without a preprocessor line between them. -/
def regions (text : Text) : List ScopeDirective → List (List ScopeDirective)
  | [] => []
  | [directive] => [[directive]]
  | first :: second :: rest =>
      match regions text (second :: rest) with
      -- never so, as directives make at least one region
      | [] => [[first]]
      | region :: others =>
          if isSplit text first second then [first] :: region :: others
          else (first :: region) :: others

/-- The edits that put the directives of a region, in sorted order, into its slots. -/
def regionEdits (policy : OrderPolicy) (text : Text) (region : List ScopeDirective) :
    List Edit :=
  (region.zip (region.mergeSort policy.sortsBefore)).filterMap fun (slot, directive) =>
    if slot.span = directive.span then none else some ⟨slot.span, directive.span.slice text⟩

def scopeEdits (policy : OrderPolicy) (text : Text) (scope : Scope) : List Edit :=
  (regions text scope.directives).flatMap (regionEdits policy text)

def edits (policy : OrderPolicy) (text : Text) (tree : Tree) : List Edit :=
  (disordered policy tree).flatMap (scopeEdits policy text)

def ruleId : String := "directive-order"

def ruleMessage : String := "Must be sorted"

/-- One finding for every unsorted scope, from its first directive to its last. -/
def findings (policy : OrderPolicy) (document : DocumentId) (tree : Tree) : List Finding :=
  (disordered policy tree).filterMap fun scope =>
    scope.block?.map fun block => ⟨ruleId, .error, ruleMessage, block, document, .ordering⟩

/-- Using directives stand in order within each scope. -/
def rule (policy : OrderPolicy) : Rule where
  id := ruleId
  title := "Usings must be sorted"
  message := ruleMessage
  description :=
    "Using directives in each file and namespace must be sorted. The order is ordinal by " ++
      "imported name, or with the configured external prefixes (System by default) first."
  category := .ordering
  severity := .error
  canFix := true
  evaluate document :=
    match document.root with
    | .error fault => .error fault
    | .ok tree => .ok (findings policy document.id tree)
  fix document :=
    match document.root with
    | .error fault => .error fault
    | .ok tree => .ok (edits policy document.text tree)

end DirectiveOrder

end CSharpTidy
