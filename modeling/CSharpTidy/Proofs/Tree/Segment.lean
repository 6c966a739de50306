import CSharpTidy.Tree.Reader

/-!
# The declarations of a file, segment by segment

The reader takes one declaration after another from the front of what is left. A `Segment` says which
tokens one step takes and what it does to the state, by the tokens of the segment alone but for one
thing: a member without an end of its own stands before a closing brace or at the end of the file.
`Parse` strings segments together, and reading succeeds exactly where they reach the end.
-/

namespace CSharpTidy

namespace Token

variable {token : Token} {mark mark' : Char} {word word' : String}

theorem isMark_iff : token.isMark mark = true ↔ token.kind = .punctuation mark := beq_iff_eq

theorem isWord_iff :
    token.isWord word = true ↔ token.kind = .identifier ∧ token.lexeme = word.toList := by
  simp [isWord]

theorem isMark_of_isMark (h : token.isMark mark = true) (hne : mark ≠ mark') :
    token.isMark mark' = false := by
  rw [isMark, isMark_iff.mp h, beq_eq_false_iff_ne]
  exact fun heq => hne (TokenKind.punctuation.inj heq)

theorem isMark_of_isWord (h : token.isWord word = true) : token.isMark mark = false := by
  rw [isMark, (isWord_iff.mp h).1]
  rfl

theorem isWord_of_isMark (h : token.isMark mark = true) : token.isWord word = false := by
  rw [isWord, isMark_iff.mp h]
  rfl

theorem isWord_of_isWord (h : token.isWord word = true) (hne : word ≠ word') :
    token.isWord word' = false := by
  rw [isWord, Bool.and_eq_false_iff, (isWord_iff.mp h).2]
  refine .inr (beq_eq_false_iff_ne.mpr fun heq => hne ?_)
  exact String.toList_injective heq

end Token

namespace Read

variable {size start depth : Nat} {opening closing : Char} {token bracket : Token}
  {tokens rest rest' segment inside : List Token} {state state' : State}

theorem afterSemicolon_eq_some_iff :
    afterSemicolon tokens = some rest ↔
      ∃ segment, tokens = segment ++ rest ∧ afterSemicolon segment = some [] := by
  induction tokens with
  | nil =>
      constructor
      · intro h
        cases h
      · rintro ⟨segment, hsegment, h⟩
        obtain ⟨rfl, rfl⟩ := List.nil_eq_append_iff.mp hsegment
        cases h
  | cons token tokens ih =>
      by_cases hmark : token.isMark ';' = true
      · rw [afterSemicolon, if_pos hmark, Option.some.injEq]
        constructor
        · rintro rfl
          exact ⟨[token], rfl, by rw [afterSemicolon, if_pos hmark]⟩
        · rintro ⟨segment, hsegment, h⟩
          cases segment with
          | nil => cases h
          | cons first segment =>
              obtain ⟨rfl, rfl⟩ := List.cons.inj hsegment
              rw [afterSemicolon, if_pos hmark, Option.some.injEq] at h
              rw [h]
              rfl
      · rw [afterSemicolon, if_neg hmark, ih]
        constructor
        · rintro ⟨segment, rfl, h⟩
          exact ⟨token :: segment, rfl, by rw [afterSemicolon, if_neg hmark, h]⟩
        · rintro ⟨segment, hsegment, h⟩
          cases segment with
          | nil => cases h
          | cons first segment =>
              obtain ⟨rfl, rfl⟩ := List.cons.inj hsegment
              rw [afterSemicolon, if_neg hmark] at h
              exact ⟨segment, rfl, h⟩

theorem afterClosing_append (h : afterClosing opening closing depth inside = some [])
    (rest : List Token) : afterClosing opening closing depth (inside ++ rest) = some rest := by
  induction inside generalizing depth with
  | nil => cases h
  | cons token inside ih =>
      rw [List.cons_append]
      unfold afterClosing at h ⊢
      split at h
      · next hopening => rw [if_pos hopening, ih h]
      next hopening =>
      rw [if_neg hopening]
      split at h
      · next hclosing =>
          rw [if_pos hclosing]
          split at h
          · next hlast =>
              rw [Option.some.injEq] at h
              rw [if_pos hlast, h, List.nil_append]
          · next hlast => rw [if_neg hlast, ih h]
      · next hclosing => rw [if_neg hclosing, ih h]

theorem exists_of_afterClosing (h : afterClosing opening closing depth tokens = some rest) :
    ∃ inside, tokens = inside ++ rest ∧ afterClosing opening closing depth inside = some [] := by
  induction tokens generalizing depth with
  | nil => cases h
  | cons token tokens ih =>
      unfold afterClosing at h
      split at h
      · next hopening =>
          obtain ⟨inside, rfl, hinside⟩ := ih h
          exact ⟨token :: inside, rfl, by rw [afterClosing, if_pos hopening, hinside]⟩
      next hopening =>
      split at h
      · next hclosing =>
          split at h
          · next hlast =>
              cases h
              exact ⟨[token], rfl, by rw [afterClosing, if_neg hopening, if_pos hclosing, if_pos hlast]⟩
          · next hlast =>
              obtain ⟨inside, rfl, hinside⟩ := ih h
              refine ⟨token :: inside, rfl, ?_⟩
              rw [afterClosing, if_neg hopening, if_pos hclosing, if_neg hlast, hinside]
      · next hclosing =>
          obtain ⟨inside, rfl, hinside⟩ := ih h
          exact ⟨token :: inside, rfl, by rw [afterClosing, if_neg hopening, if_neg hclosing, hinside]⟩

theorem afterGroup_eq_ok_iff :
    afterGroup opening closing bracket tokens = .ok rest ↔
      ∃ inside, tokens = inside ++ rest ∧ afterClosing opening closing 1 inside = some [] := by
  unfold afterGroup
  constructor
  · intro h
    split at h
    · next found hfound =>
        cases h
        exact exists_of_afterClosing hfound
    · cases h
  · rintro ⟨inside, rfl, hinside⟩
    rw [afterClosing_append hinside]

theorem afterGroup_append (bracket : Token)
    (hinside : afterClosing opening closing 1 inside = some []) (rest : List Token) :
    afterGroup opening closing bracket (inside ++ rest) = .ok rest :=
  afterGroup_eq_ok_iff.mpr ⟨inside, rfl, hinside⟩

theorem afterMember_of_parenthesis (h : token.isMark '(' = true) (tokens : List Token) :
    afterMember (token :: tokens) =
      match afterGroup '(' ')' token tokens with
      | .error error => .error error
      | .ok rest => afterMember rest := by
  rw [afterMember, if_neg (by simp [Token.isMark_of_isMark h]),
    if_neg (by simp [Token.isMark_of_isMark h]), if_neg (by simp [Token.isMark_of_isMark h]),
    if_pos h]
  cases afterGroup '(' ')' token tokens <;> rfl

theorem afterMember_of_bracket (h : token.isMark '[' = true) (tokens : List Token) :
    afterMember (token :: tokens) =
      match afterGroup '[' ']' token tokens with
      | .error error => .error error
      | .ok rest => afterMember rest := by
  rw [afterMember, if_neg (by simp [Token.isMark_of_isMark h]),
    if_neg (by simp [Token.isMark_of_isMark h]), if_neg (by simp [Token.isMark_of_isMark h]),
    if_neg (by simp [Token.isMark_of_isMark h]), if_pos h]
  cases afterGroup '[' ']' token tokens <;> rfl

theorem afterMember_parentheses (h : token.isMark '(' = true)
    (hinside : afterClosing '(' ')' 1 inside = some []) (rest : List Token) :
    afterMember (token :: (inside ++ rest)) = afterMember rest := by
  rw [afterMember_of_parenthesis h, afterGroup_append token hinside rest]

theorem afterMember_brackets (h : token.isMark '[' = true)
    (hinside : afterClosing '[' ']' 1 inside = some []) (rest : List Token) :
    afterMember (token :: (inside ++ rest)) = afterMember rest := by
  rw [afterMember_of_bracket h, afterGroup_append token hinside rest]

/-- Whether a member may end here without an end of its own. -/
def Stops (rest : List Token) : Prop := ∀ token ∈ rest.head?, token.isMark '\x7d' = true

/-- The tokens of a member that is no namespace, and whether the last of them ends it. -/
inductive Member : Bool → List Token → Prop
  | nothing : Member false []
  | semicolon {token : Token} (h : token.isMark ';' = true) : Member true [token]
  | block {token : Token} {inside : List Token} (h : token.isMark '\x7b' = true)
      (hinside : afterClosing '\x7b' '\x7d' 1 inside = some []) : Member true (token :: inside)
  | parentheses {token : Token} {inside others : List Token} {closed : Bool}
      (h : token.isMark '(' = true) (hinside : afterClosing '(' ')' 1 inside = some [])
      (hothers : Member closed others) : Member closed (token :: (inside ++ others))
  | brackets {token : Token} {inside others : List Token} {closed : Bool}
      (h : token.isMark '[' = true) (hinside : afterClosing '[' ']' 1 inside = some [])
      (hothers : Member closed others) : Member closed (token :: (inside ++ others))
  | other {token : Token} {others : List Token} {closed : Bool}
      (h : ∀ mark ∈ [';', '\x7d', '\x7b', '(', '['], token.isMark mark = false)
      (hothers : Member closed others) : Member closed (token :: others)

theorem Member.afterMember_eq {closed : Bool} (h : Member closed segment)
    (hstops : closed = false → Stops rest) : afterMember (segment ++ rest) = .ok rest := by
  induction h with
  | nothing =>
      cases rest with
      | nil => rw [List.nil_append, afterMember]
      | cons token rest =>
          have hmark : token.isMark '\x7d' = true := hstops rfl token rfl
          rw [List.nil_append, afterMember, if_neg (by simp [Token.isMark_of_isMark hmark]),
            if_pos hmark]
  | semicolon h => rw [List.singleton_append, afterMember, if_pos h]
  | block h hinside =>
      rw [List.cons_append, afterMember, if_neg (by simp [Token.isMark_of_isMark h]),
        if_neg (by simp [Token.isMark_of_isMark h]), if_pos h]
      exact afterGroup_eq_ok_iff.mpr ⟨_, rfl, hinside⟩
  | parentheses h hinside hothers ih =>
      rw [List.cons_append, List.append_assoc, afterMember_parentheses h hinside]
      exact ih hstops
  | brackets h hinside hothers ih =>
      rw [List.cons_append, List.append_assoc, afterMember_brackets h hinside]
      exact ih hstops
  | other h hothers ih =>
      simp only [List.mem_cons, List.not_mem_nil, or_false, forall_eq_or_imp, forall_eq] at h
      rw [List.cons_append, afterMember, if_neg (by simp [h]), if_neg (by simp [h]),
        if_neg (by simp [h]), if_neg (by simp [h]), if_neg (by simp [h])]
      exact ih hstops

theorem exists_member_of_afterMember (h : afterMember tokens = .ok rest) :
    ∃ closed segment, tokens = segment ++ rest ∧ Member closed segment ∧
      (closed = false → Stops rest) := by
  fun_induction afterMember tokens with
  | case1 =>
      cases h
      exact ⟨false, [], rfl, .nothing, fun _ _ hmem => by cases hmem⟩
  | case2 token tokens hmark =>
      cases h
      exact ⟨true, [token], rfl, .semicolon hmark, fun hopen => by cases hopen⟩
  | case3 token tokens _ hmark =>
      cases h
      refine ⟨false, [], rfl, .nothing, fun _ first hmem => ?_⟩
      cases hmem
      exact hmark
  | case4 token tokens _ _ hmark =>
      obtain ⟨inside, rfl, hinside⟩ := afterGroup_eq_ok_iff.mp h
      exact ⟨true, token :: inside, rfl, .block hmark hinside, fun hopen => by cases hopen⟩
  | case5 => cases h
  | case6 token tokens _ _ _ hmark found hfound ih =>
      obtain ⟨inside, rfl, hinside⟩ := afterGroup_eq_ok_iff.mp hfound
      obtain ⟨closed, segment, rfl, hmember, hstops⟩ := ih h
      exact ⟨closed, token :: (inside ++ segment), by simp, .parentheses hmark hinside hmember, hstops⟩
  | case7 => cases h
  | case8 token tokens _ _ _ _ hmark found hfound ih =>
      obtain ⟨inside, rfl, hinside⟩ := afterGroup_eq_ok_iff.mp hfound
      obtain ⟨closed, segment, rfl, hmember, hstops⟩ := ih h
      exact ⟨closed, token :: (inside ++ segment), by simp, .brackets hmark hinside hmember, hstops⟩
  | case9 token tokens hsemicolon hclosing hopening hparenthesis hbracket ih =>
      obtain ⟨closed, segment, rfl, hmember, hstops⟩ := ih h
      refine ⟨closed, token :: segment, rfl, .other ?_ hmember, hstops⟩
      simp_all

/-! Directives and headers take what they take by their own tokens. -/

/-- Whether a token ends the name of a directive, well or badly. -/
def endsDirective (token : Token) : Bool :=
  token.isMark ';' || token.isMark '\x7b' || token.isMark '\x7d'

/-- The directive of the tokens between its keywords and its semicolon, unless it names nothing. -/
def directiveOf? (start stop : Nat) (isGlobal isStatic : Bool) (parts : List Token) :
    Option Directive :=
  let (kind, name) := directiveName isStatic parts
  match name.head?, name.getLast? with
  | some first, some last =>
      some ⟨⟨start, stop⟩, joined name, first.span.cover last.span, kind, isGlobal⟩
  | _, _ => none

variable {size : Nat} {isGlobal isStatic nested : Bool} {found : Directive} {body : List Token}

theorem directiveOf?_eq_some_iff {stop : Nat} {parts : List Token} :
    directiveOf? start stop isGlobal isStatic parts = some found ↔
      ∃ first ∈ (directiveName isStatic parts).2.head?,
        ∃ last ∈ (directiveName isStatic parts).2.getLast?,
          found = ⟨⟨start, stop⟩, joined (directiveName isStatic parts).2,
            first.span.cover last.span, (directiveName isStatic parts).1, isGlobal⟩ := by
  unfold directiveOf?
  simp only
  constructor
  · intro h
    split at h
    · next first last hfirst hlast =>
        cases h
        exact ⟨first, hfirst, last, hlast, rfl⟩
    · cases h
  · rintro ⟨first, hfirst, last, hlast, rfl⟩
    rw [Option.mem_def] at hfirst hlast
    rw [hfirst, hlast]

variable {parts name : List Token} {kind : DirectiveKind} in
/-- A name of tokens makes a directive. -/
theorem exists_directiveOf? (h : directiveName isStatic parts = (kind, name)) (hne : name ≠ [])
    (start stop : Nat) (isGlobal : Bool) :
    ∃ nameSpan, directiveOf? start stop isGlobal isStatic parts =
      some ⟨⟨start, stop⟩, joined name, nameSpan, kind, isGlobal⟩ := by
  have hhead := List.head?_eq_some_head hne
  have hlast := List.getLast?_eq_some_getLast hne
  refine ⟨(name.head hne).span.cover (name.getLast hne).span, directiveOf?_eq_some_iff.mpr ?_⟩
  rw [h]
  exact ⟨_, hhead, _, hlast, rfl⟩

theorem directiveBody_eq_ok_iff :
    directiveBody size start isGlobal isStatic tokens = .ok (found, rest) ↔
      ∃ parts close, tokens = parts ++ close :: rest ∧ (∀ token ∈ parts, endsDirective token = false) ∧
        close.isMark ';' = true ∧
          directiveOf? start close.stop isGlobal isStatic parts = some found := by
  have hends : (fun token : Token => !(token.isMark ';' || token.isMark '\x7b' ||
      token.isMark '\x7d')) = fun token => !endsDirective token := rfl
  unfold directiveBody
  simp only [hends]
  constructor
  · intro h
    split at h
    · cases h
    · next close others hdrop =>
        split at h
        · next hclose =>
            split at h
            · next first last hfirst hlast =>
                cases h
                refine ⟨tokens.takeWhile fun token => !endsDirective token, close, ?_, ?_, hclose, ?_⟩
                · rw [← hdrop, List.prefix_iff_eq_append.mp (List.takeWhile_prefix _)]
                · intro token hmem
                  simpa using List.all_eq_true.mp List.all_takeWhile token hmem
                · exact directiveOf?_eq_some_iff.mpr ⟨first, hfirst, last, hlast, rfl⟩
            · cases h
        · cases h
  · rintro ⟨parts, close, rfl, hparts, hclose, hfound⟩
    have hstop : endsDirective close = true := by simp [endsDirective, hclose]
    have htake : (parts ++ close :: rest).takeWhile (fun token => !endsDirective token) = parts := by
      rw [List.takeWhile_append_of_pos fun token hmem => by simp [hparts token hmem]]
      simp [hstop]
    rw [htake, List.drop_left]
    obtain ⟨first, hfirst, last, hlast, rfl⟩ := directiveOf?_eq_some_iff.mp hfound
    rw [Option.mem_def] at hfirst hlast
    simp only [hclose, if_true, hfirst, hlast]

theorem directive_eq_ok_iff :
    directive size start isGlobal tokens = .ok (found, rest) ↔
      ∃ parts close, (dropWord "static" tokens).2 = parts ++ close :: rest ∧
        (∀ token ∈ parts, endsDirective token = false) ∧ close.isMark ';' = true ∧
          directiveOf? start close.stop isGlobal (dropWord "static" tokens).1 parts = some found :=
  directiveBody_eq_ok_iff

theorem dropWord_append {word : String} (hne : tokens ≠ []) (rest : List Token) :
    dropWord word (tokens ++ rest) =
      ((dropWord word tokens).1, (dropWord word tokens).2 ++ rest) := by
  cases tokens with
  | nil => exact absurd rfl hne
  | cons token tokens =>
      simp only [List.cons_append, dropWord]
      split <;> rfl

theorem dropWord_snd_ne_nil {word : String} (h : (dropWord word tokens).2 ≠ []) : tokens ≠ [] := by
  rintro rfl
  exact h rfl

/-- The tokens in front of a directive's name, and the name. -/
theorem exists_dropWord (word : String) (tokens : List Token) :
    ∃ lead, tokens = lead ++ (dropWord word tokens).2 := by
  unfold dropWord
  split
  · exact ⟨[], rfl⟩
  · next token tokens =>
      split
      · exact ⟨[token], rfl⟩
      · exact ⟨[], rfl⟩

theorem directive_append (size' : Nat)
    (h : directive size start isGlobal body = .ok (found, [])) (rest : List Token) :
    directive size' start isGlobal (body ++ rest) = .ok (found, rest) := by
  obtain ⟨parts, close, hbody, hparts, hclose, hfound⟩ := directive_eq_ok_iff.mp h
  have hne : (dropWord "static" body).2 ≠ [] := by simp [hbody]
  rw [directive_eq_ok_iff, dropWord_append (dropWord_snd_ne_nil hne)]
  refine ⟨parts, close, ?_, hparts, hclose, hfound⟩
  rw [hbody]
  simp

theorem exists_of_directive (size' : Nat)
    (h : directive size start isGlobal tokens = .ok (found, rest)) :
    ∃ body, tokens = body ++ rest ∧ body ≠ [] ∧
      directive size' start isGlobal body = .ok (found, []) := by
  obtain ⟨parts, close, hbody, hparts, hclose, hfound⟩ := directive_eq_ok_iff.mp h
  obtain ⟨lead, hlead⟩ := exists_dropWord "static" tokens
  have htokens : tokens = (lead ++ parts ++ [close]) ++ rest := by
    rw [hlead, hbody]
    simp
  have hne : lead ++ parts ++ [close] ≠ [] := by simp
  refine ⟨lead ++ parts ++ [close], htokens, hne, ?_⟩
  rw [htokens, dropWord_append hne] at hbody hfound
  simp only at hbody hfound
  refine directive_eq_ok_iff.mpr ⟨parts, close, ?_, hparts, hclose, hfound⟩
  have hcancel : (dropWord "static" (lead ++ parts ++ [close])).2 ++ rest =
      (parts ++ [close]) ++ rest := by
    rw [hbody]
    simp
  exact List.append_cancel_right hcancel

variable {rest' : List Token} {isGlobal' : Bool} in
theorem opensDirective?_of_dropWord (h : dropWord "global" tokens = (isGlobal', rest')) :
    opensDirective? tokens = some (isGlobal, body) ↔
      isGlobal' = isGlobal ∧ ∃ token, rest' = token :: body ∧ token.isWord "using" = true ∧
        ∀ next ∈ body.head?, next.isMark '(' = false ∧ next.isWord "var" = false := by
  unfold opensDirective?
  simp only [h]
  cases rest' with
  | nil => simp
  | cons token tokens => cases tokens <;> grind

theorem opensDirective?_eq_some_iff :
    opensDirective? tokens = some (isGlobal, body) ↔
      ∃ lead token, tokens = lead ++ token :: body ∧
        (isGlobal = false ∧ lead = [] ∨
          isGlobal = true ∧ ∃ first, lead = [first] ∧ first.isWord "global" = true) ∧
        token.isWord "using" = true ∧
        ∀ next ∈ body.head?, next.isMark '(' = false ∧ next.isWord "var" = false := by
  cases tokens with
  | nil =>
      constructor
      · intro h
        cases h
      · rintro ⟨lead, token, htokens, _⟩
        simp at htokens
  | cons token tokens =>
      by_cases hglobal : token.isWord "global" = true
      · have hdrop : dropWord "global" (token :: tokens) = (true, tokens) := if_pos hglobal
        refine (opensDirective?_of_dropWord hdrop).trans ⟨?_, ?_⟩
        · rintro ⟨rfl, using', rfl, husing, hnext⟩
          exact ⟨[token], using', rfl, .inr ⟨rfl, token, rfl, hglobal⟩, husing, hnext⟩
        · rintro ⟨lead, using', htokens, ⟨rfl, rfl⟩ | ⟨rfl, first, rfl, _⟩, husing, hnext⟩
          · obtain ⟨rfl, rfl⟩ := List.cons.inj htokens
            -- `using` is not the word `global`
            rw [Token.isWord_of_isWord husing (by decide)] at hglobal
            cases hglobal
          · obtain ⟨rfl, rfl⟩ := List.cons.inj htokens
            exact ⟨rfl, using', rfl, husing, hnext⟩
      · have hdrop : dropWord "global" (token :: tokens) = (false, token :: tokens) :=
          if_neg hglobal
        refine (opensDirective?_of_dropWord hdrop).trans ⟨?_, ?_⟩
        · rintro ⟨rfl, using', htokens, husing, hnext⟩
          exact ⟨[], using', htokens, .inl ⟨rfl, rfl⟩, husing, hnext⟩
        · rintro ⟨lead, using', htokens, ⟨rfl, rfl⟩ | ⟨rfl, first, rfl, hfirst⟩, husing, hnext⟩
          · exact ⟨rfl, using', htokens, husing, hnext⟩
          · obtain ⟨rfl, rfl⟩ := List.cons.inj htokens
            exact absurd hfirst hglobal

theorem head?_append_of_ne_nil (hne : body ≠ []) : (body ++ rest).head? = body.head? := by
  cases body with
  | nil => exact absurd rfl hne
  | cons token body => rfl

theorem opensDirective?_append (h : opensDirective? tokens = some (isGlobal, body))
    (hne : body ≠ []) (rest : List Token) :
    opensDirective? (tokens ++ rest) = some (isGlobal, body ++ rest) := by
  obtain ⟨lead, token, rfl, hlead, husing, hnext⟩ := opensDirective?_eq_some_iff.mp h
  refine opensDirective?_eq_some_iff.mpr ⟨lead, token, by simp, hlead, husing, ?_⟩
  rwa [head?_append_of_ne_nil hne]

theorem exists_of_opensDirective? (h : opensDirective? tokens = some (isGlobal, body ++ rest))
    (hne : body ≠ []) :
    ∃ segment, tokens = segment ++ rest ∧ opensDirective? segment = some (isGlobal, body) := by
  obtain ⟨lead, token, rfl, hlead, husing, hnext⟩ := opensDirective?_eq_some_iff.mp h
  rw [head?_append_of_ne_nil hne] at hnext
  exact ⟨lead ++ token :: body, by simp,
    opensDirective?_eq_some_iff.mpr ⟨lead, token, rfl, hlead, husing, hnext⟩⟩

variable {name : Text} {opened : Header}

/-- A part of the name of a namespace. -/
def isNamePart (token : Token) : Bool := token.kind == .identifier || token.isMark '.'

/-- The token that ends a header: a brace, or a semicolon where no namespace is open in braces. -/
inductive EndsHeader (nested : Bool) : Bool → Token → Prop
  | brace {close : Token} (h : close.isMark '\x7b' = true) : EndsHeader nested false close
  | semicolon {close : Token} (h : close.isMark ';' = true) (hnested : nested = false) :
      EndsHeader nested true close

theorem isMark_of_isNamePart {mark : Char} (h : isNamePart token = true) (hne : '.' ≠ mark) :
    token.isMark mark = false := by
  rcases Bool.or_eq_true_iff.mp h with hword | hdot
  · rw [Token.isMark, beq_iff_eq.mp hword]
    rfl
  · exact Token.isMark_of_isMark hdot hne

theorem header_eq_ok_iff :
    header size start nested name tokens = .ok (opened, rest) ↔
      ∃ parts close, tokens = parts ++ close :: rest ∧ (∀ token ∈ parts, isNamePart token = true) ∧
        EndsHeader nested opened.fileScoped close ∧
          opened = ⟨start, name ++ joined parts, opened.fileScoped⟩ := by
  constructor
  · intro h
    induction tokens generalizing name with
    | nil => cases h
    | cons token tokens ih =>
        rw [header] at h
        split at h
        · next hbrace =>
            cases h
            exact ⟨[], token, rfl, by simp, .brace hbrace, by simp [joined]⟩
        split at h
        · next hsemicolon =>
            split at h
            · cases h
            · next hnested =>
                cases h
                exact ⟨[], token, rfl, by simp, .semicolon hsemicolon (by simpa using hnested),
                  by simp [joined]⟩
        split at h
        · next hpart =>
            obtain ⟨parts, close, rfl, hparts, hends, hopened⟩ := ih h
            exact ⟨token :: parts, close, rfl, List.forall_mem_cons.mpr ⟨hpart, hparts⟩, hends,
              by simpa [joined] using hopened⟩
        · cases h
  · rintro ⟨parts, close, rfl, hparts, hends, hopened⟩
    obtain ⟨start', written, fileScoped⟩ := opened
    obtain ⟨rfl, rfl⟩ : start' = start ∧ written = name ++ joined parts := by simpa using hopened
    clear hopened
    induction parts generalizing name with
    | nil =>
        rw [List.nil_append, header]
        cases hends with
        | brace hbrace => simp [hbrace, joined]
        | semicolon hsemicolon hnested =>
            have hbrace := Token.isMark_of_isMark hsemicolon (by decide : ';' ≠ '\x7b')
            simp [hbrace, hsemicolon, hnested, joined]
    | cons token parts ih =>
        obtain ⟨hpart, hparts⟩ := List.forall_mem_cons.mp hparts
        have hbrace := isMark_of_isNamePart hpart (by decide : '.' ≠ '\x7b')
        have hsemicolon := isMark_of_isNamePart hpart (by decide : '.' ≠ ';')
        have hname : name ++ joined (token :: parts) = name ++ token.lexeme ++ joined parts := by
          simp [joined]
        have hword : (token.kind == .identifier || token.isMark '.') = true := hpart
        rw [List.cons_append, header, if_neg (by simp [hbrace]), if_neg (by simp [hsemicolon]),
          if_pos hword, hname]
        exact ih hparts hends

theorem header_append (size' : Nat)
    (h : header size start nested name inside = .ok (opened, [])) (rest : List Token) :
    header size' start nested name (inside ++ rest) = .ok (opened, rest) := by
  obtain ⟨parts, close, rfl, hparts, hends, hopened⟩ := header_eq_ok_iff.mp h
  exact header_eq_ok_iff.mpr ⟨parts, close, by simp, hparts, hends, hopened⟩

theorem exists_of_header (size' : Nat)
    (h : header size start nested name tokens = .ok (opened, rest)) :
    ∃ inside, tokens = inside ++ rest ∧
      header size' start nested name inside = .ok (opened, []) := by
  obtain ⟨parts, close, rfl, hparts, hends, hopened⟩ := header_eq_ok_iff.mp h
  exact ⟨parts ++ [close], by simp, header_eq_ok_iff.mpr ⟨parts, close, rfl, hparts, hends, hopened⟩⟩

theorem header_start (h : header size start nested name tokens = .ok (opened, rest)) :
    opened.start = start := by
  obtain ⟨parts, close, -, -, -, hopened⟩ := header_eq_ok_iff.mp h
  exact congrArg Header.start hopened

/-- What one step of reading does. -/
inductive Role where
  | leave (stop : Nat)
  | externAlias
  | directive (found : Directive)
  | enter (opened : Header)
  | begin

def Role.act (state : State) : Role → State
  | leave stop => state.leave stop
  | externAlias => state
  | directive found => state.addDirective found
  | enter opened => state.enter opened
  | begin => state.begin

/-- Tokens that open nothing but a member. -/
structure Plain (token : Token) (tokens : List Token) : Prop where
  notClosing : token.isMark '\x7d' = false
  notAlias : (token.isWord "extern" && tokens.head?.any (·.isWord "alias")) = false
  notDirective : opensDirective? (token :: tokens) = none
  notNamespace : token.isWord "namespace" = false
  notBracket : token.isMark '[' = false

/-- The tokens of one step in front of others, and what the step does. -/
inductive Segment (nested : Bool) (rest : List Token) : List Token → Role → Prop
  | leave {token : Token} (h : token.isMark '\x7d' = true) (hnested : nested = true) :
      Segment nested rest [token] (.leave token.stop)
  | externAlias {token : Token} {tokens : List Token} (h : token.isWord "extern" = true)
      (halias : tokens.head?.any (·.isWord "alias") = true)
      (hend : afterSemicolon tokens = some []) : Segment nested rest (token :: tokens) .externAlias
  | directive {token : Token} {tokens body : List Token} {isGlobal : Bool} {found : Directive}
      (hopens : opensDirective? (token :: tokens) = some (isGlobal, body)) (hne : body ≠ [])
      (hbody : directive 0 token.start isGlobal body = .ok (found, [])) :
      Segment nested rest (token :: tokens) (.directive found)
  | enter {token : Token} {tokens : List Token} {opened : Header}
      (h : token.isWord "namespace" = true)
      (hheader : header 0 token.start nested [] tokens = .ok (opened, [])) :
      Segment nested rest (token :: tokens) (.enter opened)
  | group {token : Token} {tokens : List Token} (h : token.isMark '[' = true)
      (hinside : afterClosing '[' ']' 1 tokens = some []) :
      Segment nested rest (token :: tokens) .begin
  | member {token : Token} {tokens : List Token} {closed : Bool}
      (hmember : Member closed (token :: tokens)) (hstops : closed = false → Stops rest)
      (hplain : Plain token tokens) : Segment nested rest (token :: tokens) .begin

theorem Member.eq_false_of_nil {closed : Bool} (h : Member closed []) : closed = false := by
  cases h
  rfl

theorem Member.of_isWord {closed : Bool} {word : String} (h : Member closed (token :: tokens))
    (hword : token.isWord word = true) : Member closed tokens := by
  cases h with
  | semicolon h => rw [Token.isMark_of_isWord hword] at h; cases h
  | block h => rw [Token.isMark_of_isWord hword] at h; cases h
  | parentheses h => rw [Token.isMark_of_isWord hword] at h; cases h
  | brackets h => rw [Token.isMark_of_isWord hword] at h; cases h
  | other _ hothers => exact hothers

theorem opensDirective?_append_eq_none_iff {closed : Bool} (hmember : Member closed (token :: tokens))
    (hstops : closed = false → Stops rest) :
    opensDirective? (token :: (tokens ++ rest)) = none ↔ opensDirective? (token :: tokens) = none := by
  rw [Option.eq_none_iff_forall_ne_some, Option.eq_none_iff_forall_ne_some]
  constructor
  · rintro h ⟨isGlobal, body⟩ hopens
    by_cases hne : body = []
    · -- the member ends in its keywords, so a closing brace or nothing comes next
      subst hne
      obtain ⟨lead, using', htokens, hlead, husing, _⟩ := opensDirective?_eq_some_iff.mp hopens
      have hopen : closed = false := by
        rw [htokens] at hmember
        rcases hlead with ⟨_, rfl⟩ | ⟨_, first, rfl, hfirst⟩
        · exact (hmember.of_isWord husing).eq_false_of_nil
        · exact ((hmember.of_isWord hfirst).of_isWord husing).eq_false_of_nil
      refine h (isGlobal, rest) ?_
      refine opensDirective?_eq_some_iff.mpr ⟨lead, using', ?_, hlead, husing, ?_⟩
      · rw [← List.cons_append, htokens]
        simp
      · intro next hnext
        have hclosing := hstops hopen next hnext
        exact ⟨Token.isMark_of_isMark hclosing (by decide), Token.isWord_of_isMark hclosing⟩
    · exact h _ (opensDirective?_append hopens hne rest)
  · rintro h ⟨isGlobal, body⟩ hopens
    obtain ⟨lead, using', htokens, hlead, husing, hnext⟩ := opensDirective?_eq_some_iff.mp hopens
    have hhead : ∀ others : List Token, body = others ++ rest →
        ∀ next ∈ others.head?, next.isMark '(' = false ∧ next.isWord "var" = false := by
      rintro others rfl next hmem
      refine hnext next ?_
      cases others with
      | nil => cases hmem
      | cons => exact hmem
    rcases hlead with ⟨rfl, rfl⟩ | ⟨rfl, first, rfl, hfirst⟩
    · obtain ⟨rfl, hbody⟩ := List.cons.inj htokens
      exact h _ (opensDirective?_eq_some_iff.mpr
        ⟨[], token, rfl, .inl ⟨rfl, rfl⟩, husing, hhead tokens hbody.symm⟩)
    · obtain ⟨rfl, hbody⟩ := List.cons.inj htokens
      cases tokens with
      | nil =>
          -- the member is `global` alone, and a closing brace is not the word `using`
          have hclosing := hstops (hmember.of_isWord hfirst).eq_false_of_nil using' (by
            rw [List.nil_append] at hbody
            rw [hbody]
            rfl)
          rw [Token.isMark_of_isWord husing] at hclosing
          cases hclosing
      | cons second tokens =>
          obtain ⟨rfl, hrest⟩ := List.cons.inj hbody
          exact h _ (opensDirective?_eq_some_iff.mpr ⟨[token], second, rfl,
            .inr ⟨rfl, token, rfl, hfirst⟩, husing, hhead tokens hrest.symm⟩)

/-- Whether tokens open a member shows in the tokens of the member. -/
theorem plain_append_iff {closed : Bool} (hmember : Member closed (token :: tokens))
    (hstops : closed = false → Stops rest) : Plain token (tokens ++ rest) ↔ Plain token tokens := by
  have halias : (token.isWord "extern" && (tokens ++ rest).head?.any (·.isWord "alias")) =
      (token.isWord "extern" && tokens.head?.any (·.isWord "alias")) := by
    cases tokens with
    | cons => rfl
    | nil =>
        by_cases hword : token.isWord "extern" = true
        · have hopen := (hmember.of_isWord hword).eq_false_of_nil
          have hnext : rest.head?.any (·.isWord "alias") = false := by
            rw [Option.any_eq_false]
            intro next hmem
            rw [Token.isWord_of_isMark (hstops hopen next hmem)]
          simp [hnext]
        · simp [hword]
  have hdirective := opensDirective?_append_eq_none_iff hmember hstops
  constructor
  · intro h
    exact ⟨h.notClosing, halias ▸ h.notAlias, hdirective.mp h.notDirective, h.notNamespace,
      h.notBracket⟩
  · intro h
    exact ⟨h.notClosing, halias.trans h.notAlias, hdirective.mpr h.notDirective, h.notNamespace,
      h.notBracket⟩

theorem not_isMark_of_opensDirective? (mark : Char)
    (h : opensDirective? (token :: tokens) = some (isGlobal, body)) :
    token.isMark mark = false ∧ token.isWord "extern" = false := by
  obtain ⟨lead, using', htokens, hlead, husing, _⟩ := opensDirective?_eq_some_iff.mp h
  rcases hlead with ⟨_, rfl⟩ | ⟨_, first, rfl, hfirst⟩
  · obtain ⟨rfl, -⟩ := List.cons.inj htokens
    exact ⟨Token.isMark_of_isWord husing, Token.isWord_of_isWord husing (by decide)⟩
  · obtain ⟨rfl, -⟩ := List.cons.inj htokens
    exact ⟨Token.isMark_of_isWord hfirst, Token.isWord_of_isWord hfirst (by decide)⟩

theorem opensDirective?_eq_none (hglobal : token.isWord "global" = false)
    (husing : token.isWord "using" = false) (tokens : List Token) :
    opensDirective? (token :: tokens) = none := by
  unfold opensDirective? dropWord
  simp [hglobal, husing]

/-! One equation for each kind of step that reading goes on from. -/

theorem declarations_leave (h : token.isMark '\x7d' = true) (hbraced : state.isBraced = true) :
    declarations size state (token :: tokens) =
      declarations size (state.leave token.stop) tokens := by
  rw [declarations, dif_pos h, if_pos hbraced]

theorem declarations_externAlias (h : token.isWord "extern" = true)
    (halias : tokens.head?.any (·.isWord "alias") = true) (hafter : afterSemicolon tokens = some rest) :
    declarations size state (token :: tokens) = declarations size state rest := by
  have hopens : (token.isWord "extern" && tokens.head?.any (·.isWord "alias")) = true :=
    Bool.and_eq_true_iff.mpr ⟨h, halias⟩
  rw [declarations, dif_neg (by simp [Token.isMark_of_isWord h]), if_pos hopens]
  split
  · next hnone =>
      rw [hafter] at hnone
      cases hnone
  · next found hfound =>
      rw [hafter] at hfound
      cases hfound
      rfl

theorem declarations_directive (hopens : opensDirective? (token :: tokens) = some (isGlobal, body))
    (hbody : directive size token.start isGlobal body = .ok (found, rest)) :
    declarations size state (token :: tokens) = declarations size (state.addDirective found) rest := by
  obtain ⟨hmark, hnamed⟩ := not_isMark_of_opensDirective? '\x7d' hopens
  rw [declarations, dif_neg (by simp [hmark]), if_neg (by simp [hnamed])]
  split
  · next hsome =>
      rw [hopens] at hsome
      cases hsome
      split
      · next herror =>
          rw [hbody] at herror
          cases herror
      · next hfound =>
          rw [hbody] at hfound
          cases hfound
          rfl
  · next hnone =>
      rw [hopens] at hnone
      cases hnone

theorem declarations_enter (h : token.isWord "namespace" = true)
    (hheader : header size token.start state.isBraced [] tokens = .ok (opened, rest)) :
    declarations size state (token :: tokens) = declarations size (state.enter opened) rest := by
  have hnone := opensDirective?_eq_none (Token.isWord_of_isWord h (by decide))
    (Token.isWord_of_isWord h (by decide)) tokens
  rw [declarations, dif_neg (by simp [Token.isMark_of_isWord h]),
    if_neg (by simp [Token.isWord_of_isWord h])]
  split
  · next hsome =>
      rw [hnone] at hsome
      cases hsome
  rw [if_pos h]
  split
  · next herror =>
      rw [hheader] at herror
      cases herror
  · next hfound =>
      rw [hheader] at hfound
      cases hfound
      rfl

theorem declarations_group (h : token.isMark '[' = true)
    (hgroup : afterGroup '[' ']' token tokens = .ok rest) :
    declarations size state (token :: tokens) = declarations size state.begin rest := by
  have hnone := opensDirective?_eq_none (Token.isWord_of_isMark h) (Token.isWord_of_isMark h) tokens
  rw [declarations, dif_neg (by simp [Token.isMark_of_isMark h]),
    if_neg (by simp [Token.isWord_of_isMark h])]
  split
  · next hsome =>
      rw [hnone] at hsome
      cases hsome
  rw [if_neg (by simp [Token.isWord_of_isMark h]), if_pos h]
  split
  · next herror =>
      rw [hgroup] at herror
      cases herror
  · next hfound =>
      rw [hgroup] at hfound
      cases hfound
      rfl

theorem declarations_member (h : Plain token tokens) (hafter : afterMember (token :: tokens) = .ok rest) :
    declarations size state (token :: tokens) = declarations size state.begin rest := by
  rw [declarations, dif_neg (by simp [h.notClosing]),
    if_neg (by rw [h.notAlias]; exact Bool.false_ne_true)]
  split
  · next hsome =>
      rw [h.notDirective] at hsome
      cases hsome
  rw [if_neg (by simp [h.notNamespace]), if_neg (by simp [h.notBracket])]
  split
  · next herror =>
      rw [hafter] at herror
      cases herror
  · next hfound =>
      rw [hafter] at hfound
      cases hfound
      rfl

/-- A step takes its segment and leaves the rest to be read in the state after it. -/
theorem Segment.declarations_append {role : Role} (h : Segment state.isBraced rest segment role) :
    declarations size state (segment ++ rest) = declarations size (role.act state) rest := by
  cases h with
  | leave h hbraced => exact declarations_leave h hbraced
  | @externAlias token tokens h halias hend =>
      have hnext : (tokens ++ rest).head?.any (·.isWord "alias") = true := by
        cases tokens with
        | nil => cases halias
        | cons => exact halias
      exact declarations_externAlias h hnext (afterSemicolon_eq_some_iff.mpr ⟨tokens, rfl, hend⟩)
  | directive hopens hne hbody =>
      exact declarations_directive (opensDirective?_append hopens hne rest)
        (directive_append size hbody rest)
  | enter h hheader => exact declarations_enter h (header_append size hheader rest)
  | @group token tokens h hinside => exact declarations_group h (afterGroup_append token hinside rest)
  | member hmember hstops hplain =>
      exact declarations_member ((plain_append_iff hmember hstops).mpr hplain)
        (hmember.afterMember_eq hstops)

/-- Where tokens are left, reading that succeeds takes a segment. -/
theorem exists_segment {tree : Tree}
    (h : (declarations size state (token :: tokens)).result = .ok tree) :
    ∃ segment rest role, token :: tokens = segment ++ rest ∧ segment ≠ [] ∧
      Segment state.isBraced rest segment role := by
  rw [declarations] at h
  split at h
  · next hclosing =>
      split at h
      · next hbraced =>
          exact ⟨[token], tokens, _, rfl, List.cons_ne_nil _ _, .leave hclosing hbraced⟩
      · cases h
  next hclosing =>
  split at h
  · next halias =>
      obtain ⟨hnamed, halias⟩ := Bool.and_eq_true_iff.mp halias
      split at h
      · cases h
      · next rest hrest =>
          obtain ⟨inside, rfl, hinside⟩ := afterSemicolon_eq_some_iff.mp hrest
          refine ⟨token :: inside, rest, _, rfl, List.cons_ne_nil _ _, .externAlias hnamed ?_ hinside⟩
          cases inside with
          | nil => cases hinside
          | cons => exact halias
  next halias =>
  split at h
  · next isGlobal body hopens =>
      split at h
      · cases h
      · next found rest hbody =>
          obtain ⟨name, rfl, hne, hname⟩ := exists_of_directive 0 hbody
          obtain ⟨segment, htokens, hsegment⟩ := exists_of_opensDirective? hopens hne
          cases segment with
          | nil => cases hsegment
          | cons first others =>
              obtain ⟨rfl, rfl⟩ := List.cons.inj htokens
              exact ⟨token :: others, rest, _, rfl, List.cons_ne_nil _ _,
                .directive hsegment hne hname⟩
  next hnone =>
  split at h
  · next hnamespace =>
      split at h
      · cases h
      · next opened rest hheader =>
          obtain ⟨inside, rfl, hinside⟩ := exists_of_header 0 hheader
          exact ⟨token :: inside, rest, _, rfl, List.cons_ne_nil _ _, .enter hnamespace hinside⟩
  next hnamespace =>
  split at h
  · next hbracket =>
      split at h
      · cases h
      · next rest hgroup =>
          obtain ⟨inside, rfl, hinside⟩ := afterGroup_eq_ok_iff.mp hgroup
          exact ⟨token :: inside, rest, _, rfl, List.cons_ne_nil _ _, .group hbracket hinside⟩
  next hbracket =>
  split at h
  · cases h
  · next rest hafter =>
      obtain ⟨closed, segment, htokens, hmember, hstops⟩ := exists_member_of_afterMember hafter
      cases segment with
      | nil =>
          -- nothing is taken only in front of a closing brace, which has been ruled out
          have hopen := hmember.eq_false_of_nil
          rw [List.nil_append] at htokens
          exact absurd (hstops hopen token (by rw [← htokens]; rfl)) hclosing
      | cons first others =>
          obtain ⟨rfl, rfl⟩ := List.cons.inj htokens
          have hplain : Plain token (others ++ rest) :=
            ⟨by simpa using hclosing, Bool.eq_false_iff.mpr halias, hnone,
              by simpa using hnamespace, by simpa using hbracket⟩
          exact ⟨token :: others, rest, _, rfl, List.cons_ne_nil _ _,
            .member hmember hstops ((plain_append_iff hmember hstops).mp hplain)⟩

/-- Reading tokens to the end leads from one state to another. -/
inductive Parse : State → List Token → State → Prop
  | done {state : State} (h : state.isBraced = false) : Parse state [] state
  | step {state last : State} {segment rest : List Token} {role : Role}
      (hsegment : Segment state.isBraced rest segment role)
      (hrest : Parse (role.act state) rest last) : Parse state (segment ++ rest) last

theorem Parse.declarations_eq {last : State} (h : Parse state tokens last) (size : Nat) :
    declarations size state tokens = ⟨last.late, .ok (State.close size last.block last.outer)⟩ := by
  induction h with
  | done h => rw [declarations, if_neg (by simp [h])]
  | step hsegment hrest ih => rw [hsegment.declarations_append, ih]

theorem exists_parse {state : State} {tokens : List Token} {tree : Tree}
    (h : (declarations size state tokens).result = .ok tree) :
    ∃ last, Parse state tokens last := by
  match tokens with
  | [] =>
      rw [declarations] at h
      split at h
      · cases h
      · next hbraced => exact ⟨state, .done (by simpa using hbraced)⟩
  | token :: tokens =>
      obtain ⟨segment, rest, role, htokens, hne, hsegment⟩ := exists_segment h
      have hshorter : rest.length < (token :: tokens).length := by
        rw [htokens, List.length_append]
        have := List.length_pos_iff.mpr hne
        omega
      rw [htokens, hsegment.declarations_append] at h
      obtain ⟨last, hlast⟩ := exists_parse h
      exact ⟨last, htokens ▸ .step hsegment hlast⟩
termination_by tokens.length
decreasing_by exact hshorter

end Read

def Token.code (tokens : List Token) : List Token :=
  tokens.filter fun token => !token.kind.isTrivia

namespace CSharp

/-- A text has a tree where its tokens can be read to the end. -/
theorem read_eq_ok_iff {text : Text} {late : List Text} {tree : Tree} :
    read text = (late, .ok tree) ↔
      ∃ tokens last, tokenize text = .ok tokens ∧ Read.Parse {} (Token.code tokens) last ∧
        late = last.late ∧ tree = Read.State.close text.size last.block last.outer := by
  unfold read
  constructor
  · intro h
    split at h
    · cases h
    · next tokens htokens =>
        simp only at h
        split at h
        · cases h
        · next found hfound =>
            obtain ⟨last, hlast⟩ := Read.exists_parse hfound
            rw [hlast.declarations_eq] at h hfound
            cases h
            cases hfound
            exact ⟨tokens, last, htokens, hlast, rfl, rfl⟩
  · rintro ⟨tokens, last, htokens, hlast, rfl, rfl⟩
    have hcode := hlast.declarations_eq text.size
    unfold Token.code at hcode
    rw [htokens]
    simp only [hcode]

theorem tree?_eq_some_iff {text : Text} {tree : Tree} :
    tree? text = some tree ↔ read text = ((read text).1, .ok tree) := by
  unfold tree?
  constructor
  · intro h
    split at h
    · next found hfound =>
        cases h
        exact Prod.ext rfl hfound
    · cases h
  · intro h
    rw [h]

end CSharp

end CSharpTidy
