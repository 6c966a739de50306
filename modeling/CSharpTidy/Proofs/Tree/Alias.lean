import CSharpTidy.Proofs.Tree.Collected
import CSharpTidy.Proofs.Tree.Forest
import CSharpTidy.Proofs.Tree.Nesting

/-!
# Aliases, and statements that look like them

A directive is an alias if it has a `=` that something precedes, and what precedes it is not looked at.
So a statement that declares a resource, `using T x = e;`, is an alias to the reader unless `T` is
`var`. The directives of a tree are traced back here to the places where reading comes by them, and so
the aliases that name no single identifier to such statements in the head of a scope.
-/

namespace CSharpTidy

namespace Token

variable {lead front rest : List Token} {keyword equals : Token}

/-- What declarations say inside a span. -/
def within (span : Span) (tokens : List Token) : List Token :=
  (code tokens).filter fun token => span.containsSpan token.span

/-- The tokens between `using` and the first `=` behind it. -/
def beforeEquals (tokens : List Token) : List Token :=
  ((tokens.dropWhile fun token => !token.isWord "using").drop 1).takeWhile
    fun token => !token.isMark '='

/-- A single identifier, which may stand behind `unsafe`. -/
def isAliasName : List Token → Bool
  | [name] => name.kind == .identifier
  | [modifier, name] => modifier.isWord "unsafe" && name.kind == .identifier
  | _ => false

/-- The tokens in front of `using` in a directive. -/
def IsLead (lead : List Token) : Prop :=
  lead = [] ∨ ∃ first, lead = [first] ∧ first.isWord "global" = true

theorem isMark_of_isAliasName (h : isAliasName front = true) (mark : Char) :
    ∀ token ∈ front, token.isMark mark = false := by
  have hidentifier : ∀ token : Token, (token.kind == .identifier) = true →
      token.isMark mark = false := by
    intro token hkind
    rw [isMark, beq_iff_eq.mp hkind]
    rfl
  unfold isAliasName at h
  split at h
  · next name => exact List.forall_mem_singleton.mpr (hidentifier name h)
  · next modifier name =>
      obtain ⟨hmodifier, hname⟩ := Bool.and_eq_true_iff.mp h
      exact List.forall_mem_cons.mpr
        ⟨isMark_of_isWord hmodifier, List.forall_mem_singleton.mpr (hidentifier name hname)⟩
  · cases h

theorem dropWhile_lead (hlead : IsLead lead) (hkeyword : keyword.isWord "using" = true) :
    ((lead ++ keyword :: rest).dropWhile fun token => !token.isWord "using") = keyword :: rest := by
  have hstops : ((keyword :: rest).dropWhile fun token => !token.isWord "using") =
      keyword :: rest := List.dropWhile_cons_of_neg (by rw [hkeyword]; exact Bool.false_ne_true)
  obtain rfl | ⟨first, rfl, hfirst⟩ := hlead
  · exact hstops
  · have hskips : ((first :: keyword :: rest).dropWhile fun token => !token.isWord "using") =
        (keyword :: rest).dropWhile fun token => !token.isWord "using" :=
      List.dropWhile_cons_of_pos (by rw [isWord_of_isWord hfirst (by decide)]; rfl)
    exact hskips.trans hstops

theorem beforeEquals_eq (hlead : IsLead lead) (hkeyword : keyword.isWord "using" = true)
    (hfront : ∀ token ∈ front, token.isMark '=' = false) (hequals : equals.isMark '=' = true) :
    beforeEquals (lead ++ keyword :: (front ++ equals :: rest)) = front := by
  have hstops : ((equals :: rest).takeWhile fun token => !token.isMark '=') = [] :=
    List.takeWhile_cons_of_neg (by rw [hequals]; exact Bool.false_ne_true)
  rw [beforeEquals, dropWhile_lead hlead hkeyword, List.drop_one, List.tail_cons,
    List.takeWhile_append_of_pos fun token hmem => by rw [hfront token hmem]; rfl, hstops,
    List.append_nil]

theorem isAliasName_eq_false (hlead : IsLead lead) (hkeyword : keyword.isWord "using" = true)
    (hequals : equals.isMark '=' = true) (rest : List Token)
    (h : isAliasName (beforeEquals (lead ++ keyword :: (front ++ equals :: rest))) = false) :
    isAliasName front = false := by
  refine Bool.eq_false_iff.mpr fun hname => ?_
  rw [beforeEquals_eq hlead hkeyword (isMark_of_isAliasName hname '=') hequals, hname] at h
  cases h

end Token

namespace Read

open Token (code IsLead isAliasName beforeEquals)

/-! ## Statements that look like aliases -/

/-- A statement `using T x = e;`, or whatever else is spelled like an alias without naming a single
identifier in front of the `=`. -/
structure TypedUsing where
  lead : List Token
  keyword : Token
  first : Token
  others : List Token
  equals : Token
  target : List Token
  close : Token
  isLead : IsLead lead
  isUsing : keyword.isWord "using" = true
  /-- Neither a parenthesis nor `var` tells that this is a statement. -/
  untold : first.isMark '(' = false ∧ first.isWord "var" = false
  typed : isAliasName (first :: others) = false
  /-- The `=` is the first that something precedes. -/
  splits : equals.isMark '=' = true ∧ ∀ token ∈ others, token.isMark '=' = false
  target_ne : target ≠ []
  whole : ∀ token ∈ first :: (others ++ equals :: target), endsDirective token = false
  closes : close.isMark ';' = true

namespace TypedUsing

def body (statement : TypedUsing) : List Token :=
  statement.first :: (statement.others ++ statement.equals :: statement.target)

def tokens (statement : TypedUsing) : List Token :=
  statement.lead ++ statement.keyword :: (statement.body ++ [statement.close])

theorem isAliasName_beforeEquals (statement : TypedUsing) :
    isAliasName (beforeEquals statement.tokens) = false := by
  obtain ⟨hequals, hothers⟩ := statement.splits
  by_cases hfirst : statement.first.isMark '=' = true
  · have hnone : beforeEquals (statement.lead ++ statement.keyword :: ([] ++ statement.first ::
        (statement.others ++ statement.equals :: statement.target ++ [statement.close]))) = [] :=
      Token.beforeEquals_eq statement.isLead statement.isUsing (by simp) hfirst
    exact congrArg isAliasName hnone
  · have hfront : ∀ token ∈ statement.first :: statement.others, token.isMark '=' = false :=
      List.forall_mem_cons.mpr ⟨by simpa using hfirst, hothers⟩
    have htokens : statement.tokens = statement.lead ++ statement.keyword ::
        ((statement.first :: statement.others) ++ statement.equals ::
          (statement.target ++ [statement.close])) := by
      simp [tokens, body]
    rw [htokens, Token.beforeEquals_eq statement.isLead statement.isUsing hfront hequals]
    exact statement.typed

end TypedUsing

variable {start stop : Nat} {nested isGlobal isStatic : Bool} {name : Text} {found : Directive}
  {segment rest tokens parts target others : List Token} {first : Token}

/-- Parts that make an alias split at the first `=` that something precedes. -/
theorem exists_of_directiveName (h : directiveName isStatic parts = (.alias name, target)) :
    ∃ first others equals, parts = first :: (others ++ equals :: target) ∧
      equals.isMark '=' = true ∧ ∀ token ∈ others, token.isMark '=' = false := by
  cases parts with
  | nil => cases isStatic <;> cases h
  | cons first parts =>
      have hparts : parts = (parts.takeWhile fun token => !token.isMark '=') ++
          parts.dropWhile fun token => !token.isMark '=' := List.takeWhile_append_dropWhile.symm
      have hothers : ∀ token ∈ parts.takeWhile fun token => !token.isMark '=',
          token.isMark '=' = false := fun token hmem => by simpa using List.mem_takeWhile_imp hmem
      have hstop := List.head?_dropWhile_not (fun token : Token => !token.isMark '=') parts
      cases hdrop : parts.dropWhile fun token => !token.isMark '=' with
      | nil =>
          rw [hdrop, List.append_nil] at hparts
          rw [← hparts] at hothers
          rw [directiveName_of_forall hothers] at h
          cases isStatic <;> cases h
      | cons equals behind =>
          rw [hdrop] at hparts hstop
          have hequals : equals.isMark '=' = true := by simpa using hstop
          rw [hparts, directiveName_alias hothers hequals] at h
          obtain rfl := (Prod.mk.inj h).2
          exact ⟨first, _, equals, congrArg (first :: ·) hparts, hequals, hothers⟩

/-- `static` is no part of a directive's name, but in front of a `=` it is no single identifier either
unless it stands alone. -/
theorem exists_of_dropWord (htyped : isAliasName (first :: others) = false)
    (hothers : ∀ token ∈ others, token.isMark '=' = false) :
    ∃ isStatic keyword first' others', first :: others = keyword ++ first' :: others' ∧
      (∀ token ∈ others', token.isMark '=' = false) ∧
      ∀ rest, dropWord "static" (first :: (others ++ rest)) =
        (isStatic, first' :: (others' ++ rest)) := by
  by_cases hstatic : first.isWord "static" = true
  · cases others with
    | nil =>
        have hname : isAliasName [first] = true := beq_iff_eq.mpr (Token.isWord_iff.mp hstatic).1
        rw [htyped] at hname
        cases hname
    | cons second others =>
        exact ⟨true, [first], second, others, rfl, (List.forall_mem_cons.mp hothers).2,
          fun rest => dropWord_of_isWord hstatic⟩
  · exact ⟨false, [], first, others, rfl, hothers,
      fun rest => dropWord_of_not_isWord (by simpa using hstatic)⟩

theorem TypedUsing.exists_directive (statement : TypedUsing) (start : Nat) (isGlobal : Bool) :
    ∃ found, directive 0 start isGlobal (statement.body ++ [statement.close]) = .ok (found, []) ∧
      found.isAlias = true := by
  obtain ⟨hequals, hothers⟩ := statement.splits
  obtain ⟨isStatic, keyword, first, others, hfront, hothers, hdrop⟩ :=
    exists_of_dropWord statement.typed hothers
  have hparts : directiveName isStatic (first :: (others ++ statement.equals :: statement.target)) =
      (.alias (joined (first :: others)), statement.target) :=
    directiveName_alias hothers hequals statement.target
  obtain ⟨nameSpan, hfound⟩ :=
    exists_directiveOf? hparts statement.target_ne start statement.close.stop isGlobal
  have hbody : statement.body = keyword ++ first :: (others ++ statement.equals :: statement.target) := by
    rw [body, ← List.cons_append, hfront]
    simp
  have hwhole : ∀ token ∈ first :: (others ++ statement.equals :: statement.target),
      endsDirective token = false := fun token hmem => statement.whole token (by
    change token ∈ statement.body
    rw [hbody]
    exact List.mem_append_right keyword hmem)
  have hdropped : dropWord "static" (statement.body ++ [statement.close]) =
      (isStatic, first :: (others ++ statement.equals :: statement.target) ++ [statement.close]) := by
    have hrest := hdrop (statement.equals :: statement.target ++ [statement.close])
    simpa [body] using hrest
  refine ⟨⟨⟨start, statement.close.stop⟩, joined statement.target, nameSpan,
    .alias (joined (first :: others)), isGlobal⟩, ?_, rfl⟩
  rw [directive_eq_ok_iff, hdropped]
  exact ⟨_, statement.close, rfl, hwhole, statement.closes, hfound⟩

theorem TypedUsing.exists_segment (statement : TypedUsing) :
    ∃ found : Directive, found.isAlias = true ∧ ∀ nested rest,
      Segment nested rest statement.tokens (.directive found) := by
  have hne : statement.body ++ [statement.close] ≠ [] := by simp
  have hopens : ∀ isGlobal, (isGlobal = false ∧ statement.lead = [] ∨
      isGlobal = true ∧ ∃ first, statement.lead = [first] ∧ first.isWord "global" = true) →
      opensDirective? statement.tokens =
        some (isGlobal, statement.body ++ [statement.close]) := by
    intro isGlobal hlead
    refine opensDirective?_eq_some_iff.mpr
      ⟨statement.lead, statement.keyword, rfl, hlead, statement.isUsing, ?_⟩
    rintro next hnext
    cases hnext
    exact statement.untold
  have htokens : statement.tokens = statement.lead ++ statement.keyword ::
    (statement.body ++ [statement.close]) := rfl
  obtain hlead | ⟨first, hlead, hfirst⟩ := statement.isLead
  · obtain ⟨found, hfound, halias⟩ := statement.exists_directive statement.keyword.start false
    refine ⟨found, halias, fun nested rest => ?_⟩
    have hopens := hopens false (.inl ⟨rfl, hlead⟩)
    rw [htokens, hlead] at hopens ⊢
    exact .directive hopens hne hfound
  · obtain ⟨found, hfound, halias⟩ := statement.exists_directive first.start true
    refine ⟨found, halias, fun nested rest => ?_⟩
    have hopens := hopens true (.inr ⟨rfl, first, hlead, hfirst⟩)
    rw [htokens, hlead] at hopens ⊢
    exact .directive hopens hne hfound

theorem dropWord_cases (word : String) (tokens : List Token) :
    dropWord word tokens = (false, tokens) ∨
      ∃ first others, tokens = first :: others ∧ first.isWord word = true ∧
        dropWord word tokens = (true, others) := by
  cases tokens with
  | nil => exact .inl rfl
  | cons first others =>
      by_cases hfirst : first.isWord word = true
      · exact .inr ⟨first, others, rfl, hfirst, dropWord_of_isWord hfirst⟩
      · exact .inl (dropWord_of_not_isWord (by simpa using hfirst))

theorem exists_of_directiveOf? (h : directiveOf? start stop isGlobal isStatic parts = some found)
    (halias : found.isAlias = true) :
    ∃ first others equals target, parts = first :: (others ++ equals :: target) ∧
      equals.isMark '=' = true ∧ (∀ token ∈ others, token.isMark '=' = false) ∧ target ≠ [] := by
  obtain ⟨head, hhead, _, _, rfl⟩ := directiveOf?_eq_some_iff.mp h
  cases hname : directiveName isStatic parts with
  | mk kind target =>
      rw [hname] at hhead halias
      obtain ⟨name, rfl⟩ : ∃ name, kind = .alias name := by
        cases kind <;> first | exact ⟨_, rfl⟩ | cases halias
      obtain ⟨first, others, equals, hparts, hequals, hothers⟩ := exists_of_directiveName hname
      refine ⟨first, others, equals, target, hparts, hequals, hothers, ?_⟩
      rintro rfl
      cases hhead

/-- A directive that is an alias without a single identifier in front of the `=` is such a
statement. -/
theorem Segment.exists_typedUsing (h : Segment nested rest segment (.directive found))
    (halias : found.isAlias = true) (hname : isAliasName (beforeEquals segment) = false) :
    ∃ statement : TypedUsing, segment = statement.tokens := by
  cases h with
  | @directive token tokens body isGlobal _ hopens hne hbody =>
      obtain ⟨lead, keyword, htokens, hlead, husing, hnext⟩ := opensDirective?_eq_some_iff.mp hopens
      have hlead : IsLead lead := hlead.imp And.right And.right
      rw [htokens] at hname ⊢
      obtain ⟨parts, close, hparts, hwhole, hclose, hfound⟩ := directive_eq_ok_iff.mp hbody
      obtain ⟨first, others, equals, target, rfl, hequals, hothers, htarget⟩ :=
        exists_of_directiveOf? hfound halias
      -- the type may begin with `static`, which the reader takes for the keyword
      obtain hdrop | ⟨word, left, rfl, hword, hdrop⟩ := dropWord_cases "static" body
      · rw [hdrop] at hparts
        simp only at hparts
        subst hparts
        have htyped : isAliasName (first :: others) = false := by
          refine Token.isAliasName_eq_false hlead husing hequals (target ++ [close]) ?_
          simpa using hname
        exact ⟨⟨lead, keyword, first, others, equals, target, close, hlead, husing, hnext first rfl,
          htyped, ⟨hequals, hothers⟩, htarget, hwhole, hclose⟩, rfl⟩
      · rw [hdrop] at hparts
        simp only at hparts
        subst hparts
        -- an `=` right behind `static` would make `static` the name
        have hfirst : first.isMark '=' = false := by
          refine Bool.eq_false_iff.mpr fun hfirst => ?_
          have htyped : isAliasName [word] = false := by
            refine Token.isAliasName_eq_false hlead husing hfirst
              (others ++ equals :: target ++ [close]) ?_
            simpa using hname
          rw [isAliasName, (Token.isWord_iff.mp hword).1] at htyped
          cases htyped
        have htyped : isAliasName (word :: first :: others) = false := by
          refine Token.isAliasName_eq_false hlead husing hequals (target ++ [close]) ?_
          simpa using hname
        have hwhole : ∀ token ∈ word :: first :: (others ++ equals :: target),
            endsDirective token = false := by
          refine List.forall_mem_cons.mpr ⟨?_, hwhole⟩
          simp [endsDirective, Token.isMark_of_isWord hword]
        exact ⟨⟨lead, keyword, word, first :: others, equals, target, close, hlead, husing,
          hnext word rfl, htyped, ⟨hequals, List.forall_mem_cons.mpr ⟨hfirst, hothers⟩⟩, htarget,
          hwhole, hclose⟩, rfl⟩

theorem Segment.within_span {text : Text} {taken : List Token}
    (h : Segment nested rest segment (.directive found)) (hsource : Token.Source text tokens)
    (hcode : code tokens = taken ++ (segment ++ rest)) : Token.within found.span tokens = segment := by
  obtain ⟨first, lead, name, close, -, -, rfl, -, -, -, -, -, hspan, -⟩ := h.exists_name
  have hordered := hsource.tile.ordered.filter fun token => !token.kind.isTrivia
  change (code tokens).Pairwise _ at hordered
  have hpos : ∀ token ∈ code tokens, token.start < token.stop :=
    fun token hmem => hsource.tile.nonempty token (List.mem_of_mem_filter hmem)
  rw [hcode] at hordered hpos
  rw [Token.within, hspan, hcode]
  exact Token.filter_containsSpan hordered hpos rfl List.getLast?_concat

end Read

variable {path : Path} {text : Text} {tree : Tree}

/-- **Which aliases are none.** Every alias among the directives of the scopes of a tree has a single
identifier between `using`, or `unsafe` behind it, and the `=`, just if reading comes by no statement
`using T x = e;` in the head of a scope. -/
theorem CSharp.aliases_name_one_iff (h : (CSharp.reader path text).tree = some tree) :
    ∃ tokens, tokenize text = .ok tokens ∧
      ((∀ scope ∈ tree.scopes, ∀ directive ∈ scope.directives, directive.isAlias = true →
          Token.isAliasName (Token.beforeEquals (Token.within directive.span tokens)) = true) ↔
        ¬∃ (statement : Read.TypedUsing) (state : Read.State) (rest : List Token),
          Read.Reaches {} (Token.code tokens) state (statement.tokens ++ rest) ∧
            state.block.begun = false) := by
  obtain ⟨late, hread⟩ := CSharp.tree_reader_eq_some_iff.mp h
  obtain ⟨tokens, last, htokens, hparse, -, rfl⟩ := CSharp.read_eq_ok_iff.mp hread
  have hsource := source_of_tokenize htokens
  refine ⟨tokens, htokens, ?_, fun hnone scope hscope directive hdirective halias => ?_⟩
  · rintro hnamed ⟨statement, state, rest, hreaches, hbegun⟩
    -- a statement that reading comes by is collected, with its own tokens in its span
    obtain ⟨found, halias, hsegment⟩ := statement.exists_segment
    have hfound := (Read.mem_blocks_close_iff hparse text.size).mpr
      ⟨state, _, rest, hreaches, hbegun, hsegment state.isBraced rest⟩
    have hcollected := List.mem_map_of_mem (f := ScopeDirective.ofDirective) hfound
    rw [← Tree.flatMap_scopes, List.mem_flatMap] at hcollected
    obtain ⟨scope, hscope, hdirective⟩ := hcollected
    obtain ⟨taken, hcode⟩ := hreaches.exists_taken
    have hname := hnamed scope hscope _ hdirective halias
    change Token.isAliasName (Token.beforeEquals (Token.within found.span tokens)) = true at hname
    rw [(hsegment state.isBraced rest).within_span hsource hcode,
      statement.isAliasName_beforeEquals] at hname
    cases hname
  · refine Bool.of_not_eq_false fun hname => hnone ?_
    -- an alias of a scope was taken somewhere, and its segment is that of a statement
    have hcollected := List.mem_flatMap.mpr ⟨scope, hscope, hdirective⟩
    rw [Tree.flatMap_scopes] at hcollected
    obtain ⟨found, hfound, rfl⟩ := List.mem_map.mp hcollected
    obtain ⟨state, segment, rest, hreaches, hbegun, hsegment⟩ :=
      (Read.mem_blocks_close_iff hparse text.size).mp hfound
    obtain ⟨taken, hcode⟩ := hreaches.exists_taken
    change Token.isAliasName (Token.beforeEquals (Token.within found.span tokens)) = false at hname
    rw [hsegment.within_span hsource hcode] at hname
    obtain ⟨statement, rfl⟩ := hsegment.exists_typedUsing halias hname
    exact ⟨statement, state, rest, hreaches, hbegun⟩

/-- `using unsafe` introduces an alias, and `var` a statement that is told from one. -/
theorem CSharp.aliases_name_one_of_unsafe :
    ∃ tokens, tokenize "using unsafe P = B;\nusing var x = y;\n".toList = .ok tokens ∧
      ¬∃ (statement : Read.TypedUsing) (state : Read.State) (rest : List Token),
        Read.Reaches {} (Token.code tokens) state (statement.tokens ++ rest) ∧
          state.block.begun = false := by
  obtain ⟨tree, htree⟩ := Option.isSome_iff_exists.mp
    (by decide +kernel : (CSharp.reader ⟨"a.cs"⟩
      "using unsafe P = B;\nusing var x = y;\n".toList).tree.isSome)
  obtain ⟨tokens, htokens, hiff⟩ := CSharp.aliases_name_one_iff htree
  have hcheck : (CSharp.reader ⟨"a.cs"⟩ "using unsafe P = B;\nusing var x = y;\n".toList).tree.all
      (fun tree => tree.namespaces.isEmpty &&
        (tokenize "using unsafe P = B;\nusing var x = y;\n".toList).toOption.all fun tokens =>
          tree.fileScope.directives.all fun directive =>
            Token.isAliasName (Token.beforeEquals (Token.within directive.span tokens))) = true := by
    decide +kernel
  rw [htree, htokens, Option.all_some, Bool.and_eq_true] at hcheck
  refine ⟨tokens, htokens, hiff.mp fun scope hscope directive hdirective _ => ?_⟩
  rw [Tree.scopes_of_isEmpty hcheck.1, List.mem_singleton] at hscope
  subst hscope
  exact List.all_eq_true.mp hcheck.2 directive hdirective

/-- A statement that opens a file is an alias to the reader, and its initializer the name of what is
imported. -/
theorem CSharp.statement_taken_for_alias :
    ∃ tree tokens, (CSharp.reader ⟨"a.cs"⟩ "using System;\nusing File f = Open(p);\n".toList).tree =
        some tree ∧
      tokenize "using System;\nusing File f = Open(p);\n".toList = .ok tokens ∧
      ∃ scope ∈ tree.scopes, ∃ directive ∈ scope.directives, directive.isAlias = true ∧
        directive.sortKey = "Open(p)".toList ∧
        (Token.beforeEquals (Token.within directive.span tokens)).map Token.lexeme =
          ["File".toList, "f".toList] ∧
        Token.isAliasName (Token.beforeEquals (Token.within directive.span tokens)) = false := by
  obtain ⟨tree, htree⟩ := Option.isSome_iff_exists.mp
    (by decide +kernel : (CSharp.reader ⟨"a.cs"⟩
      "using System;\nusing File f = Open(p);\n".toList).tree.isSome)
  obtain ⟨late, hread⟩ := CSharp.tree_reader_eq_some_iff.mp htree
  obtain ⟨tokens, last, htokens, -⟩ := CSharp.read_eq_ok_iff.mp hread
  have hcheck : (CSharp.reader ⟨"a.cs"⟩ "using System;\nusing File f = Open(p);\n".toList).tree.all
      (fun tree => (tokenize "using System;\nusing File f = Open(p);\n".toList).toOption.all
        fun tokens => tree.fileScope.directives.any fun directive =>
          decide (directive.isAlias = true ∧ directive.sortKey = "Open(p)".toList ∧
            (Token.beforeEquals (Token.within directive.span tokens)).map Token.lexeme =
              ["File".toList, "f".toList] ∧
            Token.isAliasName (Token.beforeEquals (Token.within directive.span tokens)) = false)) =
        true := by decide +kernel
  rw [htree, htokens, Option.all_some] at hcheck
  obtain ⟨directive, hdirective, htaken⟩ := List.any_eq_true.mp hcheck
  exact ⟨tree, tokens, htree, htokens, tree.fileScope, List.mem_cons_self, directive, hdirective,
    of_decide_eq_true htaken⟩

end CSharpTidy
