import CSharpTidy.Scope

namespace CSharpTidy

inductive OrderPolicy where
  | alphabetical
  /-- What lies under one of the prefixes comes first. -/
  | externalFirst (prefixes : List Text)
deriving DecidableEq, Repr

namespace OrderPolicy

/-- What counts as external unless something else is said. -/
def defaultPrefixes : List Text := ["System".toList]

def name : OrderPolicy → String
  | alphabetical => "alphabetical"
  | externalFirst _ => "external-first"

/-- Whether a name equals a beginning or goes on with a dot after it. -/
def continues (key start : Text) : Bool :=
  start.isPrefixOf key && (key.drop start.length).head?.all (· == '.')

def leads (prefixes : List Text) (key : Text) : Bool := prefixes.any (continues key)

/-- Compares names character by character, after moving external ones to the front. -/
def compareNames : OrderPolicy → Text → Text → Ordering
  | alphabetical, first, second => compare first second
  | externalFirst prefixes, first, second =>
      match leads prefixes first, leads prefixes second with
      | true, false => .lt
      | false, true => .gt
      | _, _ => compare first second

def compareDirectives (policy : OrderPolicy) (first second : ScopeDirective) : Ordering :=
  policy.compareNames first.sortKey second.sortKey

/-- Whether no directive comes directly before one that sorts lower. -/
def isSorted (policy : OrderPolicy) : List ScopeDirective → Bool
  | [] => true
  | [_] => true
  | first :: second :: rest =>
      (policy.compareDirectives first second).isLE && isSorted policy (second :: rest)

/-- Whether a directive may stand before another: global ones first, then as the policy says. -/
def sortsBefore (policy : OrderPolicy) (first second : ScopeDirective) : Bool :=
  match first.isGlobal, second.isGlobal with
  | true, false => true
  | false, true => false
  | _, _ => (policy.compareDirectives first second).isLE

end OrderPolicy

end CSharpTidy
