import CSharpTidy.Proofs.Order.Fix
import CSharpTidy.Proofs.Tree.Collected
import CSharpTidy.Proofs.Tree.Scopes

/-!
# The walk over a tree

A namespace has an address, its number among its siblings at each depth. The walk takes the namespaces
that wait from the front and puts those inside in their place, so it comes by all addresses, each once
and in their order: an address stands in front of those that go on from it. Where the tree was read from
a text, that is the order of the text, too.
-/

namespace CSharpTidy

open List (Forall₂)

namespace Namespace

variable {front declarations : List Namespace} {declaration found : Namespace} {index start : Nat}
  {address : List Nat}

/-- The namespace at an address. -/
def at? (declarations : List Namespace) : List Nat → Option Namespace
  | [] => none
  | index :: address =>
      declarations[index]?.bind fun declaration =>
        if address = [] then some declaration else at? declaration.namespaces address

/-- The addresses of siblings that are counted from a number on, and of everything inside them. -/
def addresses (start : Nat) : List Namespace → List (List Nat)
  | [] => []
  | ⟨_, _, _, _, inner⟩ :: rest =>
      [start] :: (addresses 0 inner).map (start :: ·) ++ addresses (start + 1) rest

theorem at?_length (front rest : List Namespace) (declaration : Namespace) (address : List Nat) :
    at? (front ++ declaration :: rest) (front.length :: address) =
      if address = [] then some declaration else at? declaration.namespaces address := by
  rw [at?, List.getElem?_append_right (Nat.le_refl _), Nat.sub_self, List.getElem?_cons_zero,
    Option.bind_some]

/-- The recursion over namespaces comes by them in the order of their addresses. -/
theorem forall₂_addresses (front declarations : List Namespace) :
    Forall₂ (fun address declaration => at? (front ++ declarations) address = some declaration)
      (addresses front.length declarations) (everywhere declarations) := by
  match declarations with
  | [] =>
      rw [addresses, everywhere]
      exact .nil
  | ⟨name, span, fileScoped, directives, inner⟩ :: rest =>
      have hinner := forall₂_addresses [] inner
      have hrest := forall₂_addresses (front ++ [⟨name, span, fileScoped, directives, inner⟩]) rest
      rw [← List.append_cons, List.length_append, List.length_singleton] at hrest
      rw [addresses, everywhere]
      refine List.rel_append (.cons ?_ (List.forall₂_map_left_iff.mpr (hinner.imp ?_))) hrest
      · rw [at?_length, if_pos rfl]
      · intro address declaration hfound
        have hne : address ≠ [] := by
          rintro rfl
          cases hfound
        rw [at?_length, if_neg hne]
        exact hfound

theorem mem_addresses_of_at? (front declarations : List Namespace) {index : Nat} {address : List Nat}
    (hfound : at? (front ++ declarations) (index :: address) = some found)
    (hindex : front.length ≤ index) : index :: address ∈ addresses front.length declarations := by
  match declarations with
  | [] =>
      rw [at?, List.append_nil, List.getElem?_eq_none hindex] at hfound
      cases hfound
  | ⟨name, span, fileScoped, directives, inner⟩ :: rest =>
      rw [addresses, List.mem_append, List.mem_cons, List.mem_map]
      rcases Nat.eq_or_lt_of_le hindex with rfl | hlater
      · rw [at?_length] at hfound
        cases address with
        | nil => exact .inl (.inl rfl)
        | cons next address =>
            have hinner := mem_addresses_of_at? [] inner hfound (Nat.zero_le next)
            exact .inl (.inr ⟨_, hinner, rfl⟩)
      · refine .inr ?_
        rw [List.append_cons] at hfound
        have hrest := mem_addresses_of_at? _ rest hfound
          (by rwa [List.length_append, List.length_singleton])
        rwa [List.length_append, List.length_singleton] at hrest

theorem mem_addresses_iff : address ∈ addresses 0 declarations ↔
    ∃ declaration, at? declarations address = some declaration := by
  constructor
  · intro hmem
    obtain ⟨declaration, -, hfound⟩ := Read.exists_of_mem_forall₂ (forall₂_addresses [] declarations) hmem
    exact ⟨declaration, hfound⟩
  · rintro ⟨declaration, hfound⟩
    cases address with
    | nil => cases hfound
    | cons index address => exact mem_addresses_of_at? [] declarations hfound (Nat.zero_le index)

theorem exists_of_mem_addresses (hmem : address ∈ addresses start declarations) :
    ∃ index rest, address = index :: rest ∧ start ≤ index := by
  induction declarations generalizing start with
  | nil =>
      rw [addresses] at hmem
      cases hmem
  | cons declaration declarations ih =>
      obtain ⟨name, span, fileScoped, directives, inner⟩ := declaration
      rw [addresses, List.mem_append, List.mem_cons, List.mem_map] at hmem
      rcases hmem with (rfl | ⟨inside, -, rfl⟩) | hrest
      · exact ⟨start, [], rfl, Nat.le_refl start⟩
      · exact ⟨start, inside, rfl, Nat.le_refl start⟩
      · obtain ⟨index, rest, heq, hle⟩ := ih hrest
        exact ⟨index, rest, heq, Nat.le_of_succ_le hle⟩

theorem pairwise_addresses (start : Nat) (declarations : List Namespace) :
    (addresses start declarations).Pairwise (· < ·) := by
  match declarations with
  | [] =>
      rw [addresses]
      exact .nil
  | ⟨name, span, fileScoped, directives, inner⟩ :: rest =>
      rw [addresses, List.pairwise_append, List.pairwise_cons, List.pairwise_map]
      refine ⟨⟨?_, ?_⟩, pairwise_addresses (start + 1) rest, ?_⟩
      · intro address hmem
        obtain ⟨inside, hinside, rfl⟩ := List.mem_map.mp hmem
        obtain ⟨index, below, rfl, -⟩ := exists_of_mem_addresses hinside
        exact List.cons_lt_cons_iff.mpr (.inr ⟨rfl, List.nil_lt_cons index below⟩)
      · refine (pairwise_addresses 0 inner).imp fun hlt => ?_
        exact List.cons_lt_cons_iff.mpr (.inr ⟨rfl, hlt⟩)
      · intro address hmem later hlater
        obtain ⟨index, below, rfl, hle⟩ := exists_of_mem_addresses hlater
        have hfirst : ∃ inside, address = start :: inside := by
          rcases List.mem_cons.mp hmem with rfl | hmem
          · exact ⟨[], rfl⟩
          · obtain ⟨inside, -, rfl⟩ := List.mem_map.mp hmem
            exact ⟨inside, rfl⟩
        obtain ⟨inside, rfl⟩ := hfirst
        exact List.cons_lt_cons_iff.mpr (.inl hle)

end Namespace

namespace Tree

/-- The directives of a tree that was read come, scope by scope, in the order of the text. -/
theorem flatMap_scopes_of_read {path : Path} {text : Text} {tree : Tree}
    (h : (CSharp.reader path text).tree = some tree) :
    tree.scopes.flatMap Scope.directives = tree.allDirectives.map ScopeDirective.ofDirective := by
  obtain ⟨late, hread⟩ := CSharp.tree_reader_eq_some_iff.mp h
  obtain ⟨mark, chunks, hlaid, -⟩ := exists_laid hread
  rw [flatMap_scopes, DirectiveOrder.allDirectives_eq hlaid]

/-- **The walk visits every scope once.** The scopes of a tree are that of the file and then those of the
namespaces as the recursion comes by them: one for each address at which there is a namespace, in the
order of the addresses, with the directives that stand directly in it. Where the tree was read from a
text, the directives of all scopes one after the other are all directives in source order. -/
theorem scopes_visit_once (tree : Tree) :
    tree.scopes = tree.everyScope ∧
      (∃ addresses : List (List Nat), addresses.Pairwise (· < ·) ∧
        (∀ address, address ∈ addresses ↔
          ∃ declaration, Namespace.at? tree.namespaces address = some declaration) ∧
        Forall₂ (fun address scope =>
            ∃ declaration, Namespace.at? tree.namespaces address = some declaration ∧
              scope = Scope.ofNamespace declaration)
          addresses tree.scopes.tail) ∧
      ∀ path text, (CSharp.reader path text).tree = some tree →
        tree.scopes.flatMap Scope.directives =
          tree.allDirectives.map ScopeDirective.ofDirective := by
  refine ⟨tree.scopes_eq_everyScope, ⟨Namespace.addresses 0 tree.namespaces,
    Namespace.pairwise_addresses 0 _, fun address => Namespace.mem_addresses_iff, ?_⟩,
    fun path text => flatMap_scopes_of_read⟩
  rw [scopes_eq_everyScope, everyScope, List.tail_cons, List.forall₂_map_right_iff]
  refine (Namespace.forall₂_addresses [] tree.namespaces).imp fun address declaration hfound => ?_
  exact ⟨declaration, hfound, rfl⟩

/-- Two namespaces side by side, the first around a third. -/
theorem scopes_visit_once_of_nested :
    ∃ tree, (CSharp.reader ⟨"a.cs"⟩
        "using B; namespace N \x7b using C; namespace M \x7b using A; \x7d \x7d namespace O \x7b \x7d".toList).tree =
          some tree ∧
      (Namespace.at? tree.namespaces [0, 0]).map Namespace.name = some ['M'] ∧
      tree.scopes.flatMap Scope.directives = tree.allDirectives.map ScopeDirective.ofDirective := by
  obtain ⟨tree, htree, hname⟩ := Option.map_eq_some_iff.mp (by decide +kernel :
    (CSharp.reader ⟨"a.cs"⟩
      "using B; namespace N \x7b using C; namespace M \x7b using A; \x7d \x7d namespace O \x7b \x7d".toList).tree.map
        (fun tree => (Namespace.at? tree.namespaces [0, 0]).map Namespace.name) = some (some ['M']))
  exact ⟨tree, htree, hname, tree.scopes_visit_once.2.2 _ _ htree⟩

end Tree

end CSharpTidy
