import Mathlib.Data.List.Forall2
import CSharpTidy.Proofs.Tree.Outline

/-!
# The same declarations at other offsets

The reader goes by the kinds and lexemes of tokens and hands their offsets on. So tokens that
correspond one to one, whatever the correspondence `R` says beyond kinds and lexemes, are read alike:
the trees differ in offsets only, and where a directive begins and ends, corresponding tokens stand.
Tokens that may hold the end of a line only come into names. Where their characters are rewritten, one
after another, so are the names.
-/

namespace CSharpTidy

/-- Whether tokens of this kind may hold the end of a line. -/
def TokenKind.spansLines : TokenKind → Bool
  | blockComment => true
  | string => true
  | _ => false

/-- Tokens that correspond agree in kind and lexeme. -/
def Token.Keeps (R : Token → Token → Prop) : Prop :=
  ∀ token token', R token token' → token.kind = token'.kind ∧ token.lexeme = token'.lexeme

/-- Tokens that correspond agree in kind, and in their lexemes if these stay on a line. -/
def Token.Looks (R : Token → Token → Prop) : Prop :=
  ∀ token token', R token token' → token.kind = token'.kind ∧
    (token.kind.spansLines = false → token.lexeme = token'.lexeme)

/-- Tokens that correspond look alike, and their characters are rewritten one after another. -/
structure Token.Tells (rewrite : Char → Text) (R : Token → Token → Prop) : Prop where
  looks : Token.Looks R
  lexeme : ∀ token token', R token token' → token'.lexeme = token.lexeme.flatMap rewrite

namespace Token

variable {R : Token → Token → Prop} {token token' : Token}

theorem Keeps.tells (hR : Keeps R) : Tells (fun c => [c]) R where
  looks := fun token token' h => ⟨(hR token token' h).1, fun _ => (hR token token' h).2⟩
  lexeme := fun token token' h => by rw [List.flatMap_singleton', (hR token token' h).2]

theorem Looks.isMark (hR : Looks R) (h : R token token') (mark : Char) :
    token'.isMark mark = token.isMark mark := by
  rw [Token.isMark, Token.isMark, (hR token token' h).1]

theorem Looks.isWord (hR : Looks R) (h : R token token') (word : String) :
    token'.isWord word = token.isWord word := by
  obtain ⟨hkind, hlexeme⟩ := hR token token' h
  by_cases hword : token.kind = .identifier
  · rw [Token.isWord, Token.isWord, ← hkind, hlexeme (by rw [hword]; rfl)]
  · rw [Token.isWord, Token.isWord, ← hkind, beq_eq_false_iff_ne.mpr hword]
    rfl

theorem Looks.flip (hR : Looks R) : Looks (fun token token' => R token' token) := by
  intro token token' h
  obtain ⟨hkind, hlexeme⟩ := hR token' token h
  exact ⟨hkind.symm, fun hspans => (hlexeme (hkind ▸ hspans)).symm⟩

end Token

def DirectiveKind.reword (rewrite : Char → Text) : DirectiveKind → DirectiveKind
  | .alias name => .alias (name.flatMap rewrite)
  | kind => kind

/-- A directive with the characters of its names rewritten. -/
def Directive.reword (rewrite : Char → Text) (directive : Directive) : Directive :=
  { directive with
    name := directive.name.flatMap rewrite
    kind := directive.kind.reword rewrite }

theorem Directive.reword_singleton (directive : Directive) :
    directive.reword (fun c => [c]) = directive := by
  obtain ⟨span, name, nameSpan, kind, isGlobal⟩ := directive
  cases kind <;> simp [reword, DirectiveKind.reword]

namespace Read

open List (Forall₂)

variable {R : Token → Token → Prop} {token token' : Token}
  {tokens tokens' rest rest' segment segment' inside inside' : List Token}

theorem exists_of_forall₂_append {α β : Type} {S : α → β → Prop} {first second : List α}
    {all : List β} (h : Forall₂ S (first ++ second) all) :
    ∃ first' second', all = first' ++ second' ∧ Forall₂ S first first' ∧
      Forall₂ S second second' := by
  induction first generalizing all with
  | nil => exact ⟨[], all, rfl, .nil, h⟩
  | cons item first ih =>
      cases h with
      | cons hitem hrest =>
          obtain ⟨first', second', rfl, hfirst, hsecond⟩ := ih hrest
          exact ⟨_ :: first', second', rfl, .cons hitem hfirst, hsecond⟩

theorem forall₂_head? {α β : Type} {S : α → β → Prop} {items : List α} {items' : List β}
    (h : Forall₂ S items items') {item' : β} (hitem : item' ∈ items'.head?) :
    ∃ item ∈ items.head?, S item item' := by
  cases h with
  | nil => cases hitem
  | cons h _ =>
      cases hitem
      exact ⟨_, rfl, h⟩

theorem map_eq_of_forall₂ {α β γ : Type} {f : α → γ} {g : β → γ} {items : List α} {items' : List β}
    (h : Forall₂ (fun item item' => g item' = f item) items items') : items'.map g = items.map f := by
  induction h with
  | nil => rfl
  | cons hitem _ ih => rw [List.map_cons, List.map_cons, hitem, ih]

theorem exists_of_mem_forall₂ {α β : Type} {S : α → β → Prop} {items : List α} {items' : List β}
    (h : Forall₂ S items items') {item : α} (hitem : item ∈ items) : ∃ item' ∈ items', S item item' := by
  induction h with
  | nil => cases hitem
  | cons hsame _ ih =>
      rcases List.mem_cons.mp hitem with rfl | hmem
      · exact ⟨_, List.mem_cons_self, hsame⟩
      · obtain ⟨item', hitem', hsame'⟩ := ih hmem
        exact ⟨item', List.mem_cons_of_mem _ hitem', hsame'⟩

theorem afterSemicolon_moved (hR : Token.Looks R) (h : Forall₂ R inside inside')
    (hinside : afterSemicolon inside = some []) : afterSemicolon inside' = some [] := by
  induction h with
  | nil => exact hinside
  | @cons token token' inside inside' htoken hrest ih =>
      unfold afterSemicolon at hinside ⊢
      rw [hR.isMark htoken]
      split at hinside
      · next hmark =>
          cases hinside
          cases hrest
          rw [if_pos hmark]
      · next hmark => rw [if_neg hmark, ih hinside]

theorem afterClosing_moved {opening closing : Char} {depth : Nat} (hR : Token.Looks R)
    (h : Forall₂ R inside inside') (hinside : afterClosing opening closing depth inside = some []) :
    afterClosing opening closing depth inside' = some [] := by
  induction h generalizing depth with
  | nil => exact hinside
  | @cons token token' inside inside' htoken hrest ih =>
      unfold afterClosing at hinside ⊢
      rw [hR.isMark htoken, hR.isMark htoken]
      split at hinside
      · next hopening => rw [if_pos hopening, ih hinside]
      next hopening =>
      rw [if_neg hopening]
      split at hinside
      · next hclosing =>
          rw [if_pos hclosing]
          split at hinside
          · next hlast =>
              cases hinside
              cases hrest
              rw [if_pos hlast]
          · next hlast => rw [if_neg hlast, ih hinside]
      · next hclosing => rw [if_neg hclosing, ih hinside]

theorem Member.moved {closed : Bool} (hR : Token.Looks R) (hmember : Member closed segment)
    (h : Forall₂ R segment segment') : Member closed segment' := by
  induction hmember generalizing segment' with
  | nothing =>
      cases h
      exact .nothing
  | semicolon hmark =>
      cases h with
      | cons htoken hrest =>
          cases hrest
          exact .semicolon (by rw [hR.isMark htoken, hmark])
  | block hmark hinside =>
      cases h with
      | cons htoken hrest =>
          exact .block (by rw [hR.isMark htoken, hmark]) (afterClosing_moved hR hrest hinside)
  | parentheses hmark hinside _ ih =>
      cases h with
      | cons htoken hrest =>
          obtain ⟨first, second, rfl, hfirst, hsecond⟩ := exists_of_forall₂_append hrest
          exact .parentheses (by rw [hR.isMark htoken, hmark])
            (afterClosing_moved hR hfirst hinside) (ih hsecond)
  | brackets hmark hinside _ ih =>
      cases h with
      | cons htoken hrest =>
          obtain ⟨first, second, rfl, hfirst, hsecond⟩ := exists_of_forall₂_append hrest
          exact .brackets (by rw [hR.isMark htoken, hmark])
            (afterClosing_moved hR hfirst hinside) (ih hsecond)
  | other hmarks _ ih =>
      cases h with
      | cons htoken hrest =>
          refine .other (fun mark hmem => ?_) (ih hrest)
          rw [hR.isMark htoken, hmarks mark hmem]

theorem Stops.moved (hR : Token.Looks R) (hstops : Stops rest) (h : Forall₂ R rest rest') :
    Stops rest' := by
  intro token' hmem
  obtain ⟨token, hhead, htoken⟩ := forall₂_head? h hmem
  rw [hR.isMark htoken, hstops token hhead]

theorem opensDirective?_moved {isGlobal : Bool} {body : List Token} (hR : Token.Looks R)
    (h : Forall₂ R tokens tokens') (hopens : opensDirective? tokens = some (isGlobal, body)) :
    ∃ body', opensDirective? tokens' = some (isGlobal, body') ∧ Forall₂ R body body' := by
  obtain ⟨lead, using', rfl, hlead, husing, hnext⟩ := opensDirective?_eq_some_iff.mp hopens
  obtain ⟨lead', others, rfl, hleads, hothers⟩ := exists_of_forall₂_append h
  cases hothers with
  | @cons _ using'' _ body' htoken hbody =>
      refine ⟨body', opensDirective?_eq_some_iff.mpr
        ⟨lead', using'', rfl, ?_, by rw [hR.isWord htoken, husing], ?_⟩, hbody⟩
      · rcases hlead with ⟨rfl, rfl⟩ | ⟨rfl, first, rfl, hfirst⟩
        · cases hleads
          exact .inl ⟨rfl, rfl⟩
        · cases hleads with
          | @cons _ first' _ _ hhead hnone =>
              cases hnone
              exact .inr ⟨rfl, first', rfl, by rw [hR.isWord hhead, hfirst]⟩
      · intro next' hmem
        obtain ⟨next, hhead, hnext'⟩ := forall₂_head? hbody hmem
        rw [hR.isMark hnext', hR.isWord hnext']
        exact hnext next hhead

theorem opensDirective?_eq_none_moved (hR : Token.Looks R) (h : Forall₂ R tokens tokens')
    (hnone : opensDirective? tokens = none) : opensDirective? tokens' = none := by
  cases hopens : opensDirective? tokens' with
  | none => rfl
  | some found =>
      have hflip : Forall₂ (fun token token' => R token' token) tokens' tokens := h.flip
      obtain ⟨body, hbody, _⟩ := opensDirective?_moved hR.flip hflip hopens
      rw [hnone] at hbody
      cases hbody

theorem Plain.moved (hR : Token.Looks R) (hplain : Plain token tokens) (htoken : R token token')
    (h : Forall₂ R tokens tokens') : Plain token' tokens' where
  notClosing := by rw [hR.isMark htoken, hplain.notClosing]
  notAlias := by
    have hhead : tokens'.head?.any (·.isWord "alias") = tokens.head?.any (·.isWord "alias") := by
      cases h with
      | nil => rfl
      | cons hfirst _ => exact hR.isWord hfirst "alias"
    rw [hR.isWord htoken, hhead, hplain.notAlias]
  notDirective := opensDirective?_eq_none_moved hR (.cons htoken h) hplain.notDirective
  notNamespace := by rw [hR.isWord htoken, hplain.notNamespace]
  notBracket := by rw [hR.isMark htoken, hplain.notBracket]

end Read

/-- Two directives that differ in their offsets only, and begin and end with tokens that
correspond. -/
structure Directive.Moved (R : Token → Token → Prop) (directive directive' : Directive) : Prop where
  name : directive.name = directive'.name
  kind : directive.kind = directive'.kind
  isGlobal : directive.isGlobal = directive'.isGlobal
  span : ∃ first first' last last', R first first' ∧ R last last' ∧
    directive.span = ⟨first.start, last.stop⟩ ∧ directive'.span = ⟨first'.start, last'.stop⟩

def Tree.reword (rewrite : Char → Text) (tree : Tree) : Tree :=
  tree.redraw (List.map (Directive.reword rewrite)) id

namespace Read

open List (Forall₂)

variable {R : Token → Token → Prop} {rewrite : Char → Text} {token token' : Token}
  {tokens tokens' rest rest' segment segment' parts parts' : List Token}

theorem joined_moved (hR : Token.Tells rewrite R) (h : Forall₂ R tokens tokens') :
    joined tokens' = (joined tokens).flatMap rewrite := by
  unfold joined
  induction h with
  | nil => rfl
  | cons htoken _ ih =>
      rw [List.map_cons, List.map_cons, List.flatten_cons, List.flatten_cons, List.flatMap_append, ih,
        hR.lexeme _ _ htoken]

theorem takeWhile_moved (test : Token → Bool) (htest : ∀ token token', R token token' →
    test token' = test token) (h : Forall₂ R tokens tokens') :
    Forall₂ R (tokens.takeWhile test) (tokens'.takeWhile test) := by
  induction h with
  | nil => exact .nil
  | @cons token token' _ _ htoken _ ih =>
      rw [List.takeWhile_cons, List.takeWhile_cons, htest token token' htoken]
      split
      · exact .cons htoken ih
      · exact .nil

theorem directiveName_moved (isStatic : Bool) (hR : Token.Tells rewrite R)
    (h : Forall₂ R parts parts') :
    (directiveName isStatic parts').1 = (directiveName isStatic parts).1.reword rewrite ∧
      Forall₂ R (directiveName isStatic parts).2 (directiveName isStatic parts').2 := by
  have hplain : (if isStatic then DirectiveKind.static else .namespace) =
      (if isStatic then DirectiveKind.static else .namespace).reword rewrite := by
    cases isStatic <;> rfl
  cases h with
  | nil => exact ⟨hplain, .nil⟩
  | @cons first first' others others' hfirst hothers =>
      have hbefore := takeWhile_moved (fun token => !token.isMark '=')
        (fun token token' htoken => by rw [hR.looks.isMark htoken]) hothers
      have hdrop := List.forall₂_drop (others.takeWhile fun token => !token.isMark '=').length
        hothers
      unfold directiveName
      simp only
      rw [← hbefore.length_eq]
      generalize List.drop (others.takeWhile fun token => !token.isMark '=').length others = left
        at hdrop ⊢
      generalize List.drop (others.takeWhile fun token => !token.isMark '=').length others' = left'
        at hdrop ⊢
      cases hdrop with
      | nil => exact ⟨hplain, .cons hfirst hothers⟩
      | cons _ htarget =>
          refine ⟨?_, htarget⟩
          simp only
          rw [joined_moved hR (.cons hfirst hbefore)]
          rfl

theorem forall₂_getLast? {items items' : List Token} (h : Forall₂ R items items') {item' : Token}
    (hitem : item' ∈ items'.getLast?) : ∃ item ∈ items.getLast?, R item item' := by
  rw [← List.head?_reverse] at hitem
  obtain ⟨item, hmem, hsame⟩ := forall₂_head? (List.forall₂_reverse_iff.mpr h) hitem
  exact ⟨item, List.head?_reverse ▸ hmem, hsame⟩

theorem directiveOf?_moved {isGlobal isStatic : Bool} {found : Directive} {first first' last last' : Token}
    (hR : Token.Tells rewrite R) (hfirst : R first first') (hlast : R last last')
    (h : Forall₂ R parts parts')
    (hfound : directiveOf? first.start last.stop isGlobal isStatic parts = some found) :
    ∃ found', directiveOf? first'.start last'.stop isGlobal isStatic parts' = some found' ∧
      Directive.Moved R (found.reword rewrite) found' := by
  obtain ⟨hkind, hname⟩ := directiveName_moved isStatic hR h
  obtain ⟨head, hhead, tail, htail, rfl⟩ := directiveOf?_eq_some_iff.mp hfound
  obtain ⟨head', hhead', _⟩ := forall₂_head? hname.flip hhead
  obtain ⟨tail', htail', _⟩ := forall₂_getLast? hname.flip htail
  exact ⟨_, directiveOf?_eq_some_iff.mpr ⟨head', hhead', tail', htail', rfl⟩,
    (joined_moved hR hname).symm, hkind.symm, rfl,
    first, first', last, last', hfirst, hlast, rfl, rfl⟩

theorem endsDirective_moved (hR : Token.Looks R) (htoken : R token token') :
    endsDirective token' = endsDirective token := by
  rw [endsDirective, endsDirective, hR.isMark htoken, hR.isMark htoken, hR.isMark htoken]

theorem dropWord_moved (word : String) (hR : Token.Looks R) (h : Forall₂ R tokens tokens') :
    (dropWord word tokens').1 = (dropWord word tokens).1 ∧
      Forall₂ R (dropWord word tokens).2 (dropWord word tokens').2 := by
  cases h with
  | nil => exact ⟨rfl, .nil⟩
  | cons htoken hrest =>
      simp only [dropWord, hR.isWord htoken]
      split
      · exact ⟨rfl, hrest⟩
      · exact ⟨rfl, .cons htoken hrest⟩

theorem directive_moved {isGlobal : Bool} {found : Directive} (hR : Token.Tells rewrite R)
    (hstart : R token token') (h : Forall₂ R tokens tokens')
    (hfound : directive 0 token.start isGlobal tokens = .ok (found, [])) :
    ∃ found', directive 0 token'.start isGlobal tokens' = .ok (found', []) ∧
      Directive.Moved R (found.reword rewrite) found' := by
  obtain ⟨hstatic, hbody⟩ := dropWord_moved "static" hR.looks h
  obtain ⟨parts, close, htokens, hparts, hclose, hnamed⟩ := directive_eq_ok_iff.mp hfound
  rw [htokens] at hbody
  obtain ⟨parts', others, htokens', hsame, hothers⟩ := exists_of_forall₂_append hbody
  cases hothers with
  | @cons _ close' _ _ hcloses hnone =>
      cases hnone
      obtain ⟨found', hfound', hmoved⟩ := directiveOf?_moved hR hstart hcloses hsame hnamed
      rw [← hstatic] at hfound'
      refine ⟨found', directive_eq_ok_iff.mpr ⟨parts', close', htokens', ?_, ?_, hfound'⟩, hmoved⟩
      · intro part' hmem
        obtain ⟨part, hpart, hsame'⟩ := exists_of_mem_forall₂ hsame.flip hmem
        rw [endsDirective_moved hR.looks hsame', hparts part hpart]
      · rw [hR.looks.isMark hcloses, hclose]

theorem isNamePart_moved (hR : Token.Looks R) (h : R token token') :
    isNamePart token' = isNamePart token := by
  rw [isNamePart, isNamePart, hR.isMark h, (hR _ _ h).1]

theorem lexeme_eq_of_isNamePart (hR : Token.Looks R) (h : R token token')
    (hpart : isNamePart token = true) : token'.lexeme = token.lexeme := by
  refine ((hR _ _ h).2 ?_).symm
  rcases Bool.or_eq_true_iff.mp hpart with hword | hdot
  · rw [beq_iff_eq.mp hword]
    rfl
  · rw [Token.isMark_iff.mp hdot]
    rfl

/-- A name that is declared stays on a line, so that it is the same in both texts. -/
theorem joined_eq_of_isNamePart (hR : Token.Looks R) (h : Forall₂ R parts parts')
    (hparts : ∀ token ∈ parts, isNamePart token = true) : joined parts' = joined parts := by
  unfold joined
  induction h with
  | nil => rfl
  | cons htoken _ ih =>
      obtain ⟨hpart, hparts⟩ := List.forall_mem_cons.mp hparts
      rw [List.map_cons, List.map_cons, List.flatten_cons, List.flatten_cons, ih hparts,
        lexeme_eq_of_isNamePart hR htoken hpart]

theorem EndsHeader.moved {nested fileScoped : Bool} (hends : EndsHeader nested fileScoped token)
    (hR : Token.Looks R) (h : R token token') : EndsHeader nested fileScoped token' := by
  cases hends with
  | brace hbrace => exact .brace (by rw [hR.isMark h, hbrace])
  | semicolon hsemicolon hnested => exact .semicolon (by rw [hR.isMark h, hsemicolon]) hnested

theorem header_moved {start : Nat} {nested : Bool} {name : Text} {opened : Header}
    (hR : Token.Looks R) (h : Forall₂ R tokens tokens')
    (hopened : header 0 start nested name tokens = .ok (opened, [])) (start' : Nat) :
    header 0 start' nested name tokens' = .ok (⟨start', opened.name, opened.fileScoped⟩, []) := by
  obtain ⟨parts, close, rfl, hparts, hends, hname⟩ := header_eq_ok_iff.mp hopened
  obtain ⟨parts', others, rfl, hsame, hothers⟩ := exists_of_forall₂_append h
  cases hothers with
  | @cons _ close' _ _ hclose hnone =>
      cases hnone
      refine header_eq_ok_iff.mpr ⟨parts', close', rfl, ?_, hends.moved hR hclose, ?_⟩
      · intro part' hmem
        obtain ⟨part, hpart, hsame'⟩ := exists_of_mem_forall₂ hsame.flip hmem
        rw [isNamePart_moved hR hsame', hparts part hpart]
      · rw [joined_eq_of_isNamePart hR hsame hparts, congrArg Header.name hname]

inductive Role.Moved (R : Token → Token → Prop) : Role → Role → Prop
  | leave {token token' : Token} (h : R token token') :
      Moved R (.leave token.stop) (.leave token'.stop)
  | externAlias : Moved R .externAlias .externAlias
  | directive {found found' : Directive} (h : Directive.Moved R found found') :
      Moved R (.directive found) (.directive found')
  | enter {token token' : Token} {name : Text} {fileScoped : Bool} (h : R token token') :
      Moved R (.enter ⟨token.start, name, fileScoped⟩) (.enter ⟨token'.start, name, fileScoped⟩)
  | begin : Moved R .begin .begin

def Role.reword (rewrite : Char → Text) : Role → Role
  | directive found => directive (found.reword rewrite)
  | role => role

theorem Role.reword_singleton (role : Role) : role.reword (fun c => [c]) = role := by
  cases role with
  | directive found => rw [Role.reword, Directive.reword_singleton]
  | _ => rfl

/-- Tokens that tell of a segment are a segment, and its step does the same with other names. -/
theorem Segment.reworded {nested : Bool} {role : Role} (hR : Token.Tells rewrite R)
    (hsegment : Segment nested rest segment role) (h : Forall₂ R segment segment')
    (hstops : Stops rest → Stops rest') :
    ∃ role', Segment nested rest' segment' role' ∧ Role.Moved R (role.reword rewrite) role' := by
  have hlooks := hR.looks
  cases hsegment with
  | leave hclosing hnested =>
      cases h with
      | cons htoken hnone =>
          cases hnone
          exact ⟨_, .leave (by rw [hlooks.isMark htoken, hclosing]) hnested, .leave htoken⟩
  | @externAlias token tokens hextern halias hend =>
      cases h with
      | cons htoken hrest =>
          refine ⟨_, .externAlias (by rw [hlooks.isWord htoken, hextern]) ?_ (afterSemicolon_moved hlooks hrest hend),
            .externAlias⟩
          cases hrest with
          | nil => exact halias
          | cons hfirst _ => rw [← halias]; exact hlooks.isWord hfirst "alias"
  | directive hopens hne hbody =>
      obtain ⟨body', hopens', hbodies⟩ := opensDirective?_moved hlooks h hopens
      cases h with
      | cons htoken hrest =>
          obtain ⟨found', hfound', hmoved⟩ := directive_moved hR htoken hbodies hbody
          refine ⟨_, .directive hopens' ?_ hfound', .directive hmoved⟩
          rintro rfl
          cases hbodies
          exact hne rfl
  | @enter token tokens opened hnamespace hheader =>
      cases h with
      | @cons _ token' _ _ htoken hrest =>
          have hstart := header_start hheader
          -- a header keeps the offset of its keyword, which may differ in the other text
          obtain ⟨start, name, fileScoped⟩ := opened
          cases hstart
          exact ⟨_, .enter (by rw [hlooks.isWord htoken, hnamespace])
            (header_moved hlooks hrest hheader token'.start), .enter htoken⟩
  | group hbracket hinside =>
      cases h with
      | cons htoken hrest =>
          exact ⟨_, .group (by rw [hlooks.isMark htoken, hbracket]) (afterClosing_moved hlooks hrest hinside),
            .begin⟩
  | member hmember hopen hplain =>
      cases h with
      | cons htoken hrest =>
          exact ⟨_, .member (hmember.moved hlooks (.cons htoken hrest)) (fun h => hstops (hopen h))
            (hplain.moved hlooks htoken hrest), .begin⟩

theorem Segment.moved {nested : Bool} {role : Role} (hR : Token.Keeps R)
    (hsegment : Segment nested rest segment role) (h : Forall₂ R segment segment')
    (hstops : Stops rest → Stops rest') :
    ∃ role', Segment nested rest' segment' role' ∧ Role.Moved R role role' := by
  have hreworded := hsegment.reworded hR.tells h hstops
  rwa [Role.reword_singleton] at hreworded

/-- Two readings that have come as far at corresponding tokens. -/
structure State.Moved (R : Token → Token → Prop) (state state' : State) : Prop where
  sound : state.Sound
  sound' : state'.Sound
  unplaced : state.redraw Directive.unplaced (fun _ => 0) =
    state'.redraw Directive.unplaced fun _ => 0
  blocks : Forall₂ (Forall₂ (Directive.Moved R)) state.blocks state'.blocks

theorem unplaced_append (first second : List Directive) :
    Directive.unplaced (first ++ second) =
      Directive.unplaced first ++ Directive.unplaced second := List.map_append

theorem Role.Moved.agree {role role' : Role} (h : Role.Moved R role role') :
    Role.Agree Directive.unplaced (fun _ => 0) role role' := by
  cases h with
  | leave => exact .leave rfl
  | externAlias => exact .externAlias
  | directive hmoved =>
      refine .directive hmoved.name ?_
      simp only [Directive.unplaced, List.map_cons, List.map_nil, hmoved.name, hmoved.kind,
        hmoved.isGlobal]
  | enter => exact .enter rfl
  | begin => exact .begin

theorem forall₂_concat {α β : Type} {S : α → β → Prop} {items : List α} {items' : List β}
    {item : α} {item' : β} (h : Forall₂ S (items ++ [item]) (items' ++ [item'])) :
    Forall₂ S items items' ∧ S item item' := by
  obtain ⟨first, second, hall, hfirst, hsecond⟩ := exists_of_forall₂_append h
  cases hsecond with
  | cons hitem hnone =>
      cases hnone
      obtain ⟨rfl, hlast⟩ := List.append_inj' hall rfl
      cases hlast
      exact ⟨hfirst, hitem⟩

theorem State.Moved.begun {state state' : State} (h : State.Moved R state state') :
    state'.block.begun = state.block.begun := by
  have hblock := congrArg (fun state : State => state.block.begun) h.unplaced
  exact hblock.symm

theorem State.Moved.act {state state' : State} {role role' : Role}
    (h : State.Moved R state state') (hrole : Role.Moved R role role') :
    State.Moved R (role.act state) (role'.act state') where
  sound := State.sound_act h.sound role
  sound' := State.sound_act h.sound' role'
  unplaced := hrole.agree.redraw_act unplaced_append h.unplaced
  blocks := by
    cases hrole with
    | leave => exact (State.blocks_leave _ _).symm ▸ (State.blocks_leave _ _).symm ▸ h.blocks
    | externAlias => exact h.blocks
    | @directive found found' hmoved =>
        change Forall₂ _ (state.addDirective found).blocks (state'.addDirective found').blocks
        cases hbegun : state.block.begun with
        | true =>
            rw [State.blocks_addDirective_late hbegun,
              State.blocks_addDirective_late (h.begun.trans hbegun)]
            exact h.blocks
        | false =>
            obtain ⟨hbefore, hafter⟩ := State.blocks_addDirective h.sound hbegun found
            obtain ⟨hbefore', hafter'⟩ :=
              State.blocks_addDirective h.sound' (h.begun.trans hbegun) found'
            have hblocks := h.blocks
            rw [hbefore, hbefore'] at hblocks
            obtain ⟨hearlier, hcurrent⟩ := forall₂_concat hblocks
            rw [hafter, hafter']
            exact List.rel_append hearlier
              (.cons (List.rel_append hcurrent (.cons hmoved .nil)) .nil)
    | enter =>
        change Forall₂ _ (state.enter _).blocks (state'.enter _).blocks
        rw [State.blocks_enter, State.blocks_enter]
        exact List.rel_append h.blocks (.cons .nil .nil)
    | begin => exact h.blocks

theorem State.Moved.isBraced {state state' : State} (h : State.Moved R state state') :
    state'.isBraced = state.isBraced := by
  rw [← isBraced_redraw Directive.unplaced (fun _ => 0), ← h.unplaced, isBraced_redraw]

def State.reword (rewrite : Char → Text) (state : State) : State :=
  { state.redraw (List.map (Directive.reword rewrite)) id with
    late := state.late.map (List.flatMap rewrite) }

theorem State.reword_empty (rewrite : Char → Text) : State.reword rewrite {} = {} := by
  simp [State.reword, State.redraw, Block.redraw, Namespace.redraw]

theorem map_reword_singleton : List.map (Directive.reword fun c => [c]) = id := by
  funext directives
  rw [List.map_congr_left fun directive _ => Directive.reword_singleton directive, List.map_id', id]

theorem State.reword_singleton (state : State) : state.reword (fun c => [c]) = state := by
  have hlate : List.flatMap (fun c : Char => [c]) = id := by
    funext text
    exact List.flatMap_singleton' text
  have hblock : ∀ block : Block, block.redraw id id = block := by
    intro block
    rw [Block.redraw, Namespace.redraw_id]
    rfl
  have houter : (fun level : Header × Block => (level.1.redraw id, level.2.redraw id id)) = id := by
    funext level
    rw [hblock]
    rfl
  obtain ⟨block, outer, late⟩ := state
  rw [State.reword, State.redraw, map_reword_singleton, hlate, List.map_id, hblock, houter, List.map_id]

theorem Role.act_reword (rewrite : Char → Text) (role : Role) (state : State) :
    (role.reword rewrite).act (state.reword rewrite) = (role.act state).reword rewrite := by
  obtain ⟨⟨directives, namespaces, begun⟩, outer, late⟩ := state
  cases role with
  | leave stop =>
      cases outer with
      | nil => rfl
      | cons level outer =>
          simp only [Role.reword, Role.act, State.reword, State.leave, State.redraw, State.addNamespace,
            Block.redraw, List.map_cons, Namespace.redraw_append, Namespace.redraw]
          rfl
  | externAlias => rfl
  | directive found =>
      cases begun with
      | false => simp [Role.reword, Role.act, State.reword, State.addDirective, State.redraw, Block.redraw]
      | true =>
          simp [Role.reword, Role.act, State.reword, State.addDirective, State.redraw, Block.redraw,
            Directive.reword]
  | enter opened =>
      simp only [Role.reword, Role.act, State.reword, State.enter, State.redraw, Block.redraw,
        List.map_cons, List.map_nil, Namespace.redraw]
      rfl
  | begin => rfl

/-- **Readings correspond.** Tokens that tell of others are read to the end alike. -/
theorem Parse.reworded {state state' last : State} (hR : Token.Tells rewrite R)
    (hparse : Parse state tokens last) (h : Forall₂ R tokens tokens')
    (hstate : State.Moved R (state.reword rewrite) state') :
    ∃ last', Parse state' tokens' last' ∧ State.Moved R (last.reword rewrite) last' := by
  have hbrace : ∀ {state state' : State}, State.Moved R (state.reword rewrite) state' →
      state'.isBraced = state.isBraced := by
    intro state state' hstate
    rw [hstate.isBraced]
    exact isBraced_redraw _ id state
  induction hparse generalizing tokens' state' with
  | done hbraced =>
      cases h
      exact ⟨state', .done ((hbrace hstate).trans hbraced), hstate⟩
  | step hsegment _ ih =>
      obtain ⟨segment', rest', rfl, hsame, hrest⟩ := exists_of_forall₂_append h
      obtain ⟨role', hsegment', hrole⟩ :=
        hsegment.reworded hR hsame fun hstops => hstops.moved hR.looks hrest
      have hnext := hstate.act hrole
      rw [Role.act_reword] at hnext
      obtain ⟨last', hlast, hmoved⟩ := ih hrest hnext
      rw [← hbrace hstate] at hsegment'
      exact ⟨last', .step hsegment' hlast, hmoved⟩

theorem Parse.moved {state state' last : State} (hR : Token.Keeps R) (hparse : Parse state tokens last)
    (h : Forall₂ R tokens tokens') (hstate : State.Moved R state state') :
    ∃ last', Parse state' tokens' last' ∧ State.Moved R last last' := by
  rw [← State.reword_singleton state] at hstate
  obtain ⟨last', hlast, hmoved⟩ := hparse.reworded hR.tells h hstate
  exact ⟨last', hlast, by rwa [State.reword_singleton] at hmoved⟩

theorem State.moved_empty : State.Moved R {} {} where
  sound := fun _ => rfl
  sound' := fun _ => rfl
  unplaced := rfl
  blocks := .cons .nil (by rw [Namespace.blocks]; exact .nil)

theorem close_reword (rewrite : Char → Text) (size : Nat) (state : State) :
    State.close size (state.reword rewrite).block (state.reword rewrite).outer =
      (State.close size state.block state.outer).reword rewrite := by
  obtain ⟨block, outer, late⟩ := state
  induction outer generalizing block with
  | nil => rfl
  | cons level outer ih =>
      have hleave := congrArg State.block
        (Role.act_reword rewrite (.leave size) ⟨block, level :: outer, late⟩)
      calc State.close size (State.reword rewrite ⟨block, level :: outer, late⟩).block
            (State.reword rewrite ⟨block, level :: outer, late⟩).outer
          = State.close size
              (State.reword rewrite ⟨State.addNamespace level.1 level.2 block size, outer, late⟩).block
              (State.reword rewrite ⟨State.addNamespace level.1 level.2 block size, outer, late⟩).outer :=
            congrArg (fun inner => State.close size inner _) hleave
        _ = (State.close size block (level :: outer)).reword rewrite := ih _

theorem State.Moved.close {state state' : State} (h : State.Moved R state state') (size size' : Nat) :
    state.late = state'.late ∧
      (State.close size state.block state.outer).unplaced =
        (State.close size' state'.block state'.outer).unplaced ∧
      Forall₂ (Forall₂ (Directive.Moved R)) (State.close size state.block state.outer).blocks
        (State.close size' state'.block state'.outer).blocks := by
  have hunplaced := h.unplaced
  simp only [State.redraw, State.mk.injEq] at hunplaced
  refine ⟨hunplaced.2.2, redraw_close unplaced_append rfl hunplaced.1 hunplaced.2.1, ?_⟩
  rw [State.blocks_close size state.block state.outer state.late,
    State.blocks_close size' state'.block state'.outer state'.late]
  exact h.blocks

end Read

namespace CSharp

open List (Forall₂)

variable {R : Token → Token → Prop} {text text' : Text} {late : List Text} {tree : Tree}
  {tokens tokens' : List Token}

/-- **Texts correspond.** Where the tokens of one text tell of those of another, comments aside, so does
its tree. -/
theorem read_reworded {rewrite : Char → Text} (hR : Token.Tells rewrite R)
    (hread : read text = (late, .ok tree)) (htokens : tokenize text = .ok tokens)
    (htokens' : tokenize text' = .ok tokens') (h : Forall₂ R (Token.code tokens) (Token.code tokens')) :
    ∃ tree', read text' = (late.map (List.flatMap rewrite), .ok tree') ∧
      (tree.reword rewrite).unplaced = tree'.unplaced ∧
      Forall₂ (Forall₂ (Directive.Moved R)) (tree.reword rewrite).blocks tree'.blocks := by
  obtain ⟨tokens, last, hfound, hlast, rfl, rfl⟩ := read_eq_ok_iff.mp hread
  rw [htokens] at hfound
  cases hfound
  have hempty : Read.State.Moved R (Read.State.reword rewrite {}) {} := by
    rw [Read.State.reword_empty]
    exact Read.State.moved_empty
  obtain ⟨last', hlast', hmoved⟩ := hlast.reworded hR h hempty
  obtain ⟨hlate, hunplaced, hblocks⟩ := hmoved.close text.size text'.size
  rw [Read.close_reword] at hunplaced hblocks
  exact ⟨_, read_eq_ok_iff.mpr ⟨tokens', last', htokens', hlast', hlate, rfl⟩, hunplaced, hblocks⟩

theorem read_moved (hR : Token.Keeps R) (hread : read text = (late, .ok tree))
    (htokens : tokenize text = .ok tokens) (htokens' : tokenize text' = .ok tokens')
    (h : Forall₂ R (Token.code tokens) (Token.code tokens')) :
    ∃ tree', read text' = (late, .ok tree') ∧ tree.unplaced = tree'.unplaced ∧
      Forall₂ (Forall₂ (Directive.Moved R)) tree.blocks tree'.blocks := by
  obtain ⟨tree', hread', hunplaced, hblocks⟩ := read_reworded hR.tells hread htokens htokens' h
  rw [Tree.reword, Read.map_reword_singleton, Tree.redraw_id] at hunplaced hblocks
  rw [List.map_congr_left fun name _ => List.flatMap_singleton' name, List.map_id'] at hread'
  exact ⟨tree', hread', hunplaced, hblocks⟩

end CSharp

end CSharpTidy
