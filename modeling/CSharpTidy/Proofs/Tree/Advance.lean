import CSharpTidy.Proofs.Tree.Cursor

/-!
# The tasks of a cursor

Each task of a cursor is compared with the function that passes the rest of the tokens on. The position
of a cursor is told by how much is left. Where the tokens stand in the text, no step of a task is a trap,
and the task ends where the function says.
-/

namespace CSharpTidy

/-- Tokens that stand in a text, in order and apart. -/
structure Token.Row (text : Text) (tokens : List Token) : Prop where
  cuts : ∀ token ∈ tokens, token.span.Cuts text
  slice : ∀ token ∈ tokens, token.span.slice text = token.lexeme
  ordered : tokens.Pairwise fun first second => first.stop ≤ second.start

theorem Token.Tile.row {text : Text} {tokens : List Token} (h : Token.Tile text tokens) :
    Token.Row text (Token.code tokens) where
  cuts token hmem := by
    have hmem := List.mem_of_mem_filter hmem
    obtain ⟨hstart, hstop⟩ := h.boundary token hmem
    exact ⟨Nat.le_of_lt (h.nonempty token hmem), h.inside token hmem, hstart, hstop⟩
  slice token hmem := h.slice token (List.mem_of_mem_filter hmem)
  ordered := h.ordered.filter _

theorem Token.Row.start_le {text : Text} {tokens rest : List Token} {token : Token}
    (hrow : Token.Row text tokens) (h : token :: rest <:+ tokens) :
    ∀ other ∈ token :: rest, token.start ≤ other.stop := by
  have hle : ∀ other ∈ tokens, other.start ≤ other.stop := fun other hmem =>
    (hrow.cuts other hmem).le
  have hbehind := (List.pairwise_cons.mp (hrow.ordered.sublist h.sublist)).1
  have htoken := hle token (h.mem List.mem_cons_self)
  refine List.forall_mem_cons.mpr ⟨htoken, fun other hmem => ?_⟩
  have hother := hle other (h.mem (List.mem_cons_of_mem _ hmem))
  exact Nat.le_trans htoken (Nat.le_trans (hbehind other hmem) hother)

namespace Read

theorem dropWord_suffix (word : String) (rest : List Token) : (dropWord word rest).2 <:+ rest := by
  obtain ⟨lead, hlead⟩ := exists_dropWord word rest
  exact ⟨lead, hlead.symm⟩

theorem afterGroup_suffix {opening closing : Char} {token : Token} {rest rest' : List Token}
    (h : afterGroup opening closing token rest = .ok rest') : rest' <:+ rest := by
  obtain ⟨inside, rfl, -⟩ := afterGroup_eq_ok_iff.mp h
  exact List.suffix_append inside rest'

theorem exists_directive_parts (rest : List Token) :
    ∃ parts tail, rest = parts ++ tail ∧
      (rest.takeWhile fun token => !endsDirective token) = parts ∧
      (∀ token ∈ parts, endsDirective token = false) ∧
      ∀ token ∈ tail.head?, endsDirective token = true := by
  refine ⟨_, _, List.takeWhile_append_dropWhile.symm, rfl, fun token hmem => ?_, fun token hmem => ?_⟩
  · simpa using List.all_eq_true.mp List.all_takeWhile token hmem
  · have hhead := List.head?_dropWhile_not (fun token => !endsDirective token) rest
    rw [Option.mem_def.mp hmem] at hhead
    simpa using hhead

namespace Cursor

variable {text : Text} {tokens rest rest' parts held : List Token} {token : Token}
  {first second last next : Progress} {state : State} {task : Task} {opening closing : Char}
  {start depth : Nat} {inMember isGlobal isStatic : Bool}

/-- The cursor in front of what is left of the tokens. -/
def before (tokens rest : List Token) (task : Task) (state : State) : Cursor :=
  ⟨tokens.length - rest.length, task, state⟩

theorem getElem?_before (h : rest <:+ tokens) (index : Nat) :
    tokens[tokens.length - rest.length + index]? = rest[index]? := by
  obtain ⟨front, rfl⟩ := h
  rw [List.length_append, Nat.add_sub_cancel, List.getElem?_append_right (Nat.le_add_right _ _),
    Nat.add_sub_cancel_left]

theorem head?_before (h : rest <:+ tokens) : tokens[tokens.length - rest.length]? = rest.head? := by
  rw [List.head?_eq_getElem?]
  exact getElem?_before h 0

theorem position_succ (h : token :: rest <:+ tokens) :
    tokens.length - (token :: rest).length + 1 = tokens.length - rest.length := by
  have := h.length_le
  rw [List.length_cons] at this ⊢
  omega

/-! ## Looking at the text -/

theorem ok_bind {α β : Type} (value : α) (next : α → Except Trap β) :
    (Except.ok value >>= next) = next value := rfl

theorem lexemeOf_eq (h : token.span.Cuts text) : lexemeOf text token = .ok (token.span.slice text) :=
  if_pos h

theorem spanOf_eq {stop : Nat} (h : start ≤ stop) : spanOf start stop = .ok ⟨start, stop⟩ := if_pos h

theorem cover_le (hrow : Token.Row text tokens) {front back : Token} (hfront : front ∈ tokens) :
    min front.start back.start ≤ max front.stop back.stop :=
  Nat.le_trans (Nat.min_le_left _ _)
    (Nat.le_trans (hrow.cuts front hfront).le (Nat.le_max_left _ _))

theorem spellingOf_eq (hrow : Token.Row text tokens) (hparts : ∀ token ∈ parts, token ∈ tokens) :
    spellingOf text parts = .ok (joined parts) := by
  induction parts with
  | nil => rfl
  | cons token parts ih =>
      obtain ⟨htoken, hparts⟩ := List.forall_mem_cons.mp hparts
      rw [spellingOf, lexemeOf_eq (hrow.cuts token htoken), hrow.slice token htoken, ih hparts]
      rfl

theorem isWordAt_eq (hrow : Token.Row text tokens) (position : Nat) (word : String) :
    isWordAt text tokens position word = .ok (tokens[position]?.any (·.isWord word)) := by
  rw [isWordAt]
  cases hhere : tokens[position]? with
  | none => rfl
  | some token =>
      have hmem := List.mem_of_getElem? hhere
      simp only [lexemeOf_eq (hrow.cuts token hmem), hrow.slice token hmem, Option.any_some,
        Token.isWord]
      cases token.kind == .identifier <;> rfl

theorem opensAliasAt_eq (hrow : Token.Row text tokens) (h : token :: rest <:+ tokens) :
    opensAliasAt text tokens (tokens.length - (token :: rest).length) =
      .ok (token.isWord "extern" && rest.head?.any (·.isWord "alias")) := by
  rw [opensAliasAt, isWordAt_eq hrow, isWordAt_eq hrow, getElem?_before h, head?_before h,
    List.getElem?_cons_succ, ← List.head?_eq_getElem?, ok_bind]
  by_cases hword : token.isWord "extern" = true
  · simp [hword]
  · simp [hword]

theorem passWord_eq (hrow : Token.Row text tokens) (h : rest <:+ tokens) (word : String) :
    passWord text tokens (tokens.length - rest.length) word =
      .ok ((dropWord word rest).1, tokens.length - (dropWord word rest).2.length) := by
  rw [passWord, isWordAt_eq hrow, head?_before h, ok_bind]
  cases rest with
  | nil => rfl
  | cons token rest =>
      by_cases hword : token.isWord word = true
      · simp only [List.head?_cons, Option.any_some, dropWord, hword, if_true, position_succ h]
      · simp [dropWord, hword]

theorem opensDirectiveAt_eq (hrow : Token.Row text tokens) (h : rest <:+ tokens) :
    opensDirectiveAt text tokens (tokens.length - rest.length) =
      .ok (opensDirective? rest).isSome := by
  have hdropped := (dropWord_suffix "global" rest).trans h
  rw [opensDirectiveAt, passWord_eq hrow h, ok_bind]
  simp only [opensDirective?, isWordAt_eq hrow, isMarkAt, ok_bind, head?_before hdropped]
  cases hbody : (dropWord "global" rest).2 with
  | nil => rfl
  | cons token body =>
      rw [hbody] at hdropped
      have hbehind := head?_before ((List.suffix_cons token body).trans hdropped)
      rw [← position_succ hdropped] at hbehind
      simp only [hbehind, List.head?_cons, Option.any_some]
      by_cases husing : token.isWord "using" = true
      · cases body with
        | nil => simp [husing]
        | cons next body =>
            by_cases hmark : next.isMark '(' = true
            · simp [husing, hmark]
            · by_cases hword : next.isWord "var" = true
              · simp [husing, hmark, hword]
              · simp [husing, hmark, hword]
      · simp [husing]

/-! ## Tasks within a turn -/

/-- Steps within one turn, none of them behind the last token. -/
def Works (text : Text) (tokens : List Token) (first last : Progress) : Prop :=
  ∃ path, Leads text tokens first path last ∧
    ∀ cursor ∈ path, cursor.task.isTurn = false ∧ cursor.position ≤ tokens.length

theorem Works.refl (progress : Progress) : Works text tokens progress progress :=
  ⟨[], .here progress, fun _ hmem => by cases hmem⟩

theorem Works.trans (h : Works text tokens first second) (h' : Works text tokens second last) :
    Works text tokens first last := by
  obtain ⟨path, hpath, hquiet⟩ := h
  obtain ⟨path', hpath', hquiet'⟩ := h'
  exact ⟨path ++ path', hpath.trans hpath', List.forall_mem_append.mpr ⟨hquiet, hquiet'⟩⟩

theorem Works.head (hstep : step text tokens (before tokens rest task state) = .ok next)
    (htask : task.isTurn = false) (h : Works text tokens next last) :
    Works text tokens (.going (before tokens rest task state)) last := by
  obtain ⟨path, hpath, hquiet⟩ := h
  exact ⟨_, .step hstep hpath,
    List.forall_mem_cons.mpr ⟨⟨htask, Nat.sub_le _ _⟩, hquiet⟩⟩

theorem Works.single (hstep : step text tokens (before tokens rest task state) = .ok next)
    (htask : task.isTurn = false) :
    Works text tokens (.going (before tokens rest task state)) next :=
  .head hstep htask (.refl next)

/-! ## What is skipped -/

section Skipped

variable (text) (state)

theorem step_externAlias (h : token :: rest <:+ tokens) :
    step text tokens (before tokens (token :: rest) .externAlias state) =
      .ok (.going (before tokens rest
        (if token.isMark ';' then .declarations else .externAlias) state)) := by
  simp only [step, before, stepExternAlias, head?_before h, List.head?_cons, position_succ h]

theorem works_externAlias (h : rest <:+ tokens) :
    Works text tokens (.going (before tokens rest .externAlias state))
      (match afterSemicolon rest with
        | some rest' => .going (before tokens rest' .declarations state)
        | none => .done ⟨state.late, .error ⟨.unclosedAlias, text.size⟩⟩) := by
  induction rest with
  | nil => exact .single (by simp only [step, before, stepExternAlias, head?_before h]; rfl) rfl
  | cons token rest ih =>
      have hstep := step_externAlias text state h
      rw [afterSemicolon]
      by_cases hmark : token.isMark ';' = true
      · rw [if_pos hmark] at hstep ⊢
        exact .single hstep rfl
      · rw [if_neg hmark] at hstep ⊢
        exact .head hstep rfl (ih ((List.suffix_cons token rest).trans h))

def resumed (inMember : Bool) : Task := if inMember then .member else .declarations

section Groups

variable (opening) (closing) (start) (inMember)

/-- One bracket less is open behind a closing one, of which the last ends the group. -/
theorem step_group (h : token :: rest <:+ tokens) (depth : Nat) :
    step text tokens
        (before tokens (token :: rest) (.group opening closing start (depth + 1) inMember) state) =
      .ok (.going (before tokens rest
        (if token.isMark opening then .group opening closing start (depth + 2) inMember
        else if token.isMark closing then
          if depth = 0 then resumed inMember else .group opening closing start depth inMember
        else .group opening closing start (depth + 1) inMember) state)) := by
  simp only [step, before, stepGroup, head?_before h, List.head?_cons, position_succ h]
  split
  · rfl
  · cases depth <;> split <;> rfl

/-- Brackets are counted down to the one that closes the first, and no further. -/
theorem works_closing (h : rest <:+ tokens) (depth : Nat) :
    Works text tokens
      (.going (before tokens rest (.group opening closing start (depth + 1) inMember) state))
      (match afterClosing opening closing (depth + 1) rest with
        | some rest' => .going (before tokens rest' (resumed inMember) state)
        | none => .done ⟨state.late, .error ⟨.unbalanced opening, start⟩⟩) := by
  induction rest generalizing depth with
  | nil => exact .single (by simp only [step, before, stepGroup, head?_before h]; rfl) rfl
  | cons token rest ih =>
      have hrest := (List.suffix_cons token rest).trans h
      have hstep := step_group text state opening closing start inMember h depth
      rw [afterClosing]
      by_cases hopening : token.isMark opening = true
      · rw [if_pos hopening] at hstep ⊢
        exact .head hstep rfl (ih hrest (depth + 1))
      rw [if_neg hopening] at hstep ⊢
      by_cases hclosing : token.isMark closing = true
      · rw [if_pos hclosing] at hstep ⊢
        cases depth with
        | zero => exact .single hstep rfl
        | succ depth => exact .head hstep rfl (ih hrest depth)
      · rw [if_neg hclosing] at hstep ⊢
        exact .head hstep rfl (ih hrest depth)

end Groups

/-- A group is entered at the bracket that opens it, so that one is open before any is closed. -/
theorem works_group (closing : Char) (inMember : Bool) (h : token :: rest <:+ tokens)
    (hmark : token.isMark opening = true) :
    Works text tokens
      (.going (before tokens (token :: rest) (.group opening closing token.start 0 inMember) state))
      (match afterGroup opening closing token rest with
        | .ok rest' => .going (before tokens rest' (resumed inMember) state)
        | .error error => .done ⟨state.late, .error error⟩) := by
  have hopened : step text tokens (before tokens (token :: rest)
      (.group opening closing token.start 0 inMember) state) =
      .ok (.going (before tokens rest (.group opening closing token.start 1 inMember) state)) := by
    simp only [step, before, stepGroup, head?_before h, List.head?_cons, hmark, if_true,
      position_succ h, Nat.zero_add]
  have hclosing := works_closing text state opening closing token.start inMember
    ((List.suffix_cons token rest).trans h) 0
  refine .head hopened rfl ?_
  rw [afterGroup]
  cases hafter : afterClosing opening closing 1 rest with
  | none => rwa [hafter] at hclosing
  | some rest' => rwa [hafter] at hclosing

theorem step_member (h : token :: rest <:+ tokens) :
    step text tokens (before tokens (token :: rest) .member state) =
      .ok (.going
        (if token.isMark ';' then before tokens rest .declarations state
        else if token.isMark '\x7d' then before tokens (token :: rest) .declarations state
        else if token.isMark '\x7b' then
          before tokens (token :: rest) (.group '\x7b' '\x7d' token.start 0 false) state
        else if token.isMark '(' then
          before tokens (token :: rest) (.group '(' ')' token.start 0 true) state
        else if token.isMark '[' then
          before tokens (token :: rest) (.group '[' ']' token.start 0 true) state
        else before tokens rest .member state)) := by
  simp only [step, before, stepMember, head?_before h, List.head?_cons, position_succ h]
  split_ifs <;> rfl

theorem works_member (h : rest <:+ tokens) :
    Works text tokens (.going (before tokens rest .member state))
      (match afterMember rest with
        | .ok rest' => .going (before tokens rest' .declarations state)
        | .error error => .done ⟨state.late, .error error⟩) := by
  fun_induction afterMember rest with
  | case1 => exact .single (by simp only [step, before, stepMember, head?_before h]; rfl) rfl
  | case2 token rest hsemicolon => exact .single (by rw [step_member text state h, if_pos hsemicolon]) rfl
  | case3 token rest hsemicolon hclosing =>
      exact .single (by rw [step_member text state h, if_neg hsemicolon, if_pos hclosing]) rfl
  | case4 token rest hsemicolon hclosing hopening =>
      refine .head ?_ rfl (works_group text state '\x7d' false h hopening)
      rw [step_member text state h, if_neg hsemicolon, if_neg hclosing, if_pos hopening]
  -- a group that does not close ends the reading, and one that does is followed by the member
  | case5 token rest hsemicolon hclosing hopening hparenthesis error hafter =>
      have hskipped := works_group text state ')' true h hparenthesis
      rw [hafter] at hskipped
      refine .head ?_ rfl hskipped
      rw [step_member text state h, if_neg hsemicolon, if_neg hclosing, if_neg hopening,
        if_pos hparenthesis]
  | case6 token rest hsemicolon hclosing hopening hparenthesis rest' hafter ih =>
      have hskipped := works_group text state ')' true h hparenthesis
      rw [hafter] at hskipped
      have hrest := (afterGroup_suffix hafter).trans ((List.suffix_cons token rest).trans h)
      refine .head ?_ rfl (hskipped.trans (ih hrest))
      rw [step_member text state h, if_neg hsemicolon, if_neg hclosing, if_neg hopening,
        if_pos hparenthesis]
  | case7 token rest hsemicolon hclosing hopening hparenthesis hbracket error hafter =>
      have hskipped := works_group text state ']' true h hbracket
      rw [hafter] at hskipped
      refine .head ?_ rfl hskipped
      rw [step_member text state h, if_neg hsemicolon, if_neg hclosing, if_neg hopening,
        if_neg hparenthesis, if_pos hbracket]
  | case8 token rest hsemicolon hclosing hopening hparenthesis hbracket rest' hafter ih =>
      have hskipped := works_group text state ']' true h hbracket
      rw [hafter] at hskipped
      have hrest := (afterGroup_suffix hafter).trans ((List.suffix_cons token rest).trans h)
      refine .head ?_ rfl (hskipped.trans (ih hrest))
      rw [step_member text state h, if_neg hsemicolon, if_neg hclosing, if_neg hopening,
        if_neg hparenthesis, if_pos hbracket]
  | case9 token rest hsemicolon hclosing hopening hparenthesis hbracket ih =>
      refine .head ?_ rfl (ih ((List.suffix_cons token rest).trans h))
      rw [step_member text state h, if_neg hsemicolon, if_neg hclosing, if_neg hopening,
        if_neg hparenthesis, if_neg hbracket]

end Skipped

/-! ## Names of namespaces -/

theorem works_header (hrow : Token.Row text tokens) (h : rest <:+ tokens) (state : State)
    (start : Nat) (name : Text) :
    Works text tokens (.going (before tokens rest (.header start name) state))
      (match header text.size start state.isBraced name rest with
        | .ok (found, rest') => .going (before tokens rest' .declarations (state.enter found))
        | .error error => .done ⟨state.late, .error error⟩) := by
  induction rest generalizing name with
  | nil => exact .single (by simp only [step, before, stepHeader, head?_before h]; rfl) rfl
  | cons token rest ih =>
      have hlexeme : lexemeOf text token = .ok token.lexeme := by
        have hmem := h.mem List.mem_cons_self
        rw [lexemeOf_eq (hrow.cuts token hmem), hrow.slice token hmem]
      have hstep : step text tokens (before tokens (token :: rest) (.header start name) state) =
          stepHeader text tokens (tokens.length - (token :: rest).length) state start name := rfl
      rw [stepHeader, head?_before h, List.head?_cons] at hstep
      simp only [position_succ h, hlexeme, ok_bind] at hstep
      rw [header]
      by_cases hopening : token.isMark '\x7b' = true
      · rw [if_pos hopening] at hstep ⊢
        exact .single hstep rfl
      rw [if_neg hopening] at hstep ⊢
      by_cases hsemicolon : token.isMark ';' = true
      · rw [if_pos hsemicolon] at hstep ⊢
        by_cases hbraced : state.isBraced = true
        · rw [if_pos hbraced] at hstep ⊢
          exact .single hstep rfl
        · rw [if_neg hbraced] at hstep ⊢
          exact .single hstep rfl
      rw [if_neg hsemicolon] at hstep ⊢
      by_cases hpart : (token.kind == .identifier || token.isMark '.') = true
      · rw [if_pos hpart] at hstep ⊢
        exact .head hstep rfl (ih ((List.suffix_cons token rest).trans h) _)
      · rw [if_neg hpart] at hstep ⊢
        exact .single hstep rfl

/-! ## Directives -/

/-- What a cursor notes of the name of a directive: the name in front of the first `=` that something
precedes, if that has come, and the tokens since. -/
def noteName (noted : Option Text × List Token) (token : Token) : Option Text × List Token :=
  if token.isMark '=' && noted.1.isNone && !noted.2.isEmpty then (some (joined noted.2), [])
  else (noted.1, noted.2 ++ [token])

theorem foldl_noteName_some (name : Text) (held parts : List Token) :
    parts.foldl noteName (some name, held) = (some name, held ++ parts) := by
  induction parts generalizing held with
  | nil => rw [List.foldl_nil, List.append_nil]
  | cons token parts ih =>
      have hnote : noteName (some name, held) token = (some name, held ++ [token]) := by
        simp [noteName]
      rw [List.foldl_cons, hnote, ih, List.append_assoc, List.singleton_append]

theorem foldl_noteName_none (hheld : held ≠ []) (parts : List Token) :
    parts.foldl noteName (none, held) =
      match parts.drop (parts.takeWhile fun token => !token.isMark '=').length with
      | [] => (none, held ++ parts)
      | _ :: target =>
          (some (joined (held ++ parts.takeWhile fun token => !token.isMark '=')), target) := by
  induction parts generalizing held with
  | nil => simp
  | cons token parts ih =>
      by_cases hmark : token.isMark '=' = true
      · have hnote : noteName (none, held) token = (some (joined held), []) := by
          simp [noteName, hmark, hheld]
        rw [List.foldl_cons, hnote, foldl_noteName_some]
        simp [hmark]
      · have hnote : noteName (none, held) token = (none, held ++ [token]) := by
          simp [noteName, hmark]
        rw [List.foldl_cons, hnote, ih (by simp)]
        simp [hmark]

/-- Noted token by token, the name of a directive is that of all its tokens. -/
theorem directiveName_eq (isStatic : Bool) (parts : List Token) :
    directiveName isStatic parts =
      (kindOf isStatic (parts.foldl noteName (none, [])).1, (parts.foldl noteName (none, [])).2) := by
  cases parts with
  | nil => rfl
  | cons first parts =>
      have hnote : noteName (none, []) first = (none, [first]) := by simp [noteName]
      rw [List.foldl_cons, hnote, foldl_noteName_none (List.cons_ne_nil _ _)]
      simp only [directiveName]
      cases parts.drop (parts.takeWhile fun token => !token.isMark '=').length <;> rfl

theorem mem_of_mem_noteName {noted : Option Text × List Token}
    (hnoted : ∀ token ∈ noted.2, token ∈ tokens) (htoken : token ∈ tokens) :
    ∀ other ∈ (noteName noted token).2, other ∈ tokens := by
  unfold noteName
  split
  · simp
  · exact List.forall_mem_append.mpr ⟨hnoted, List.forall_mem_singleton.mpr htoken⟩

section Directives

variable (state) (start) (isGlobal) (isStatic)

theorem step_part (hrow : Token.Row text tokens) (h : token :: rest <:+ tokens)
    {noted : Option Text × List Token} (hnoted : ∀ token ∈ noted.2, token ∈ tokens)
    (hpart : endsDirective token = false) :
    step text tokens (before tokens (token :: rest)
        (.directive start isGlobal isStatic noted.1 noted.2) state) =
      .ok (.going (before tokens rest (.directive start isGlobal isStatic (noteName noted token).1
        (noteName noted token).2) state)) := by
  simp only [endsDirective, Bool.or_eq_false_iff] at hpart
  obtain ⟨⟨hsemicolon, hopening⟩, hclosing⟩ := hpart
  simp only [step, before, stepDirective, head?_before h, List.head?_cons, position_succ h,
    spellingOf_eq hrow hnoted, ok_bind, hsemicolon, hopening, hclosing, Bool.or_self,
    Bool.false_eq_true, if_false, noteName]
  split <;> rfl

theorem works_parts (hrow : Token.Row text tokens) (h : parts ++ rest <:+ tokens)
    (noted : Option Text × List Token) (hnoted : ∀ token ∈ noted.2, token ∈ tokens)
    (hparts : ∀ token ∈ parts, endsDirective token = false) :
    Works text tokens
      (.going (before tokens (parts ++ rest) (.directive start isGlobal isStatic noted.1 noted.2)
        state))
      (.going (before tokens rest (.directive start isGlobal isStatic (parts.foldl noteName noted).1
        (parts.foldl noteName noted).2) state)) := by
  induction parts generalizing noted with
  | nil => exact .refl _
  | cons token parts ih =>
      obtain ⟨htoken, hparts⟩ := List.forall_mem_cons.mp hparts
      have hnoted' := mem_of_mem_noteName hnoted (h.mem List.mem_cons_self)
      exact .head (step_part state start isGlobal isStatic hrow h hnoted htoken) rfl
        (ih ((List.suffix_cons token _).trans h) _ hnoted' hparts)

/-- A directive ends with its semicolon, unless it names nothing, and badly with a brace. -/
theorem step_end (hrow : Token.Row text tokens) (h : token :: rest <:+ tokens)
    (hname : ∀ token ∈ parts, token ∈ tokens) (hstart : start ≤ token.stop)
    (hend : endsDirective token = true) (alias? : Option Text) :
    step text tokens (before tokens (token :: rest)
        (.directive start isGlobal isStatic alias? parts) state) =
      .ok (if token.isMark ';' then
        match parts.head?, parts.getLast? with
        | some first, some last => .going (before tokens rest .declarations (state.addDirective
            ⟨⟨start, token.stop⟩, joined parts, first.span.cover last.span, kindOf isStatic alias?,
              isGlobal⟩))
        | _, _ => .done ⟨state.late, .error ⟨.emptyDirective, token.start⟩⟩
      else .done ⟨state.late, .error ⟨.unclosedDirective, token.start⟩⟩) := by
  have hstep : step text tokens (before tokens (token :: rest)
      (.directive start isGlobal isStatic alias? parts) state) =
      stepDirective text tokens (tokens.length - (token :: rest).length) state start isGlobal
        isStatic alias? parts := rfl
  rw [hstep, stepDirective, head?_before h, List.head?_cons]
  by_cases hsemicolon : token.isMark ';' = true
  · simp only [hsemicolon, if_true, position_succ h]
    cases hfirst : parts.head? with
    | none => rfl
    | some first =>
        cases hlast : parts.getLast? with
        | none => rfl
        | some last =>
            have hfirst := hname first (List.mem_of_head? hfirst)
            simp only [spanOf_eq (cover_le hrow hfirst), spellingOf_eq hrow hname, spanOf_eq hstart,
              ok_bind]
            rfl
  · have hbrace : (token.isMark '\x7b' || token.isMark '\x7d') = true := by
      simpa [endsDirective, hsemicolon, Bool.or_assoc] using hend
    -- a brace is no `=`, which would be noted as the mark of an alias
    have hequals : token.isMark '=' = false := by
      rcases Bool.or_eq_true_iff.mp hbrace with hbrace | hbrace
      · exact Token.isMark_of_isMark hbrace (by decide)
      · exact Token.isMark_of_isMark hbrace (by decide)
    simp [hsemicolon, hequals, hbrace]

theorem works_directive (hrow : Token.Row text tokens) (h : rest <:+ tokens)
    (hstart : ∀ token ∈ rest, start ≤ token.stop) :
    Works text tokens
      (.going (before tokens rest (.directive start isGlobal isStatic none []) state))
      (match directiveBody text.size start isGlobal isStatic rest with
        | .ok (found, rest') => .going (before tokens rest' .declarations (state.addDirective found))
        | .error error => .done ⟨state.late, .error error⟩) := by
  have hends : (fun token : Token => !(token.isMark ';' || token.isMark '\x7b' ||
      token.isMark '\x7d')) = fun token => !endsDirective token := rfl
  obtain ⟨parts, tail, rfl, htake, hquiet, htail⟩ := exists_directive_parts rest
  -- the parts are noted one by one, and their name is that of all of them together
  have hnamed := works_parts state start isGlobal isStatic hrow h (none, []) (List.forall_mem_nil _)
    hquiet
  have hname := directiveName_eq isStatic parts
  generalize parts.foldl noteName (none, []) = noted at hnamed hname
  simp only [directiveBody, hends, htake, hname, List.drop_left]
  refine hnamed.trans ?_
  have hsuffix := (List.suffix_append parts tail).trans h
  cases tail with
  | nil => exact .single (by simp only [step, before, stepDirective, head?_before hsuffix]; rfl) rfl
  | cons token tail =>
      have hmem : ∀ token ∈ noted.2, token ∈ tokens := fun part hpart => by
        obtain ⟨lead, hlead⟩ := exists_lead_of_directiveName hname
        exact h.mem (List.mem_append_left _ (hlead ▸ List.mem_append_right lead hpart))
      have hstep := step_end state start isGlobal isStatic hrow hsuffix hmem
        (hstart token (List.mem_append_right _ List.mem_cons_self)) (htail token rfl) noted.1
      simp only
      by_cases hsemicolon : token.isMark ';' = true
      · rw [if_pos hsemicolon] at hstep ⊢
        cases hfirst : noted.2.head? with
        | none => exact .single (by rw [hstep, hfirst]) rfl
        | some first =>
            cases hlast : noted.2.getLast? with
            | none => exact .single (by rw [hstep, hfirst, hlast]) rfl
            | some last => exact .single (by rw [hstep, hfirst, hlast]) rfl
      · rw [if_neg hsemicolon] at hstep ⊢
        exact .single hstep rfl

end Directives

end Cursor

end Read

end CSharpTidy
