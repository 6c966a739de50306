import CSharpTidy.Proofs.Tree.Advance

/-!
# One turn after another

The reader takes turns, each of which leads to one that begins further on or to the end of the reading.
A cursor takes the same turns. What its tasks do not settle is that a span which ends at a brace begins
before it: the namespaces that lead inwards begin before all that is still to be read.
-/

namespace CSharpTidy

namespace Read

variable {text : Text} {tokens rest rest' body : List Token} {token : Token} {state state' : State}
  {size stop : Nat} {opened : Header} {isGlobal : Bool}

/-! ## What is left -/

theorem exists_using (hopens : opensDirective? rest = some (isGlobal, body)) :
    ∃ keyword, dropWord "global" rest = (isGlobal, keyword :: body) := by
  obtain ⟨rfl, keyword, hrest, -⟩ :=
    (opensDirective?_of_dropWord (Prod.eta (dropWord "global" rest)).symm).mp hopens
  exact ⟨keyword, Prod.ext rfl hrest⟩

theorem suffix_of_lt (h : rest' <:+ token :: rest) (hshorter : rest'.length < (token :: rest).length) :
    rest' <:+ rest := by
  rcases List.suffix_cons_iff.mp h with rfl | hsuffix
  · exact absurd hshorter (Nat.lt_irrefl _)
  · exact hsuffix

theorem body_suffix (hopens : opensDirective? (token :: rest) = some (isGlobal, body)) :
    body <:+ rest := by
  obtain ⟨lead, keyword, hlead, -⟩ := opensDirective?_eq_some_iff.mp hopens
  refine suffix_of_lt ⟨lead ++ [keyword], ?_⟩ (length_opensDirective? hopens)
  rw [hlead, List.append_assoc, List.singleton_append]

/-- One turn of the loop over declarations: the state behind it and what is left then. -/
def turn (size : Nat) (state : State) (token : Token) (rest : List Token) :
    Except TreeError (State × List Token) :=
  if token.isMark '\x7d' then
    if state.isBraced then .ok (state.leave token.stop, rest) else .error ⟨.strayBrace, token.start⟩
  else if token.isWord "extern" && rest.head?.any (·.isWord "alias") then
    match afterSemicolon rest with
    | none => .error ⟨.unclosedAlias, size⟩
    | some rest' => .ok (state, rest')
  else match opensDirective? (token :: rest) with
    | some (isGlobal, body) =>
        match directive size token.start isGlobal body with
        | .error error => .error error
        | .ok (found, rest') => .ok (state.addDirective found, rest')
    | none =>
        if token.isWord "namespace" then
          match header size token.start state.isBraced [] rest with
          | .error error => .error error
          | .ok (found, rest') => .ok (state.enter found, rest')
        else
          match if token.isMark '[' then afterGroup '[' ']' token rest
            else afterMember (token :: rest) with
          | .error error => .error error
          | .ok rest' => .ok (state.begin, rest')

theorem declarations_cons (size : Nat) (state : State) (token : Token) (rest : List Token) :
    declarations size state (token :: rest) =
      match turn size state token rest with
      | .error error => ⟨state.late, .error error⟩
      | .ok (state', rest') => declarations size state' rest' := by
  rw [declarations, turn]
  split
  · split <;> rfl
  split
  · split <;> next hafter => rw [hafter]
  split
  · next hopens =>
      simp only [hopens]
      split <;> next hfound => rw [hfound]
  next hopens =>
  simp only [hopens]
  split
  · split <;> next hheader => rw [hheader]
  split
  · split <;> next hgroup => rw [hgroup]
  · split <;> next hmember => rw [hmember]

/-- What a turn takes and what it does to the state. -/
theorem turn_cases (h : turn size state token rest = .ok (state', rest')) :
    rest' <:+ rest ∧ ∃ role : Role, state' = role.act state ∧
      ∀ opened, role = .enter opened → opened.start = token.start := by
  rw [turn] at h
  split at h
  · split at h
    · cases h
      exact ⟨List.suffix_refl _, .leave token.stop, rfl, fun _ hrole => by cases hrole⟩
    · cases h
  next hclosing =>
  split at h
  · split at h
    · cases h
    · next hafter =>
        cases h
        obtain ⟨inside, rfl, -⟩ := afterSemicolon_eq_some_iff.mp hafter
        exact ⟨List.suffix_append _ _, .externAlias, rfl, fun _ hrole => by cases hrole⟩
  split at h
  · next isGlobal body hopens =>
      split at h
      · cases h
      · next found others hfound =>
          cases h
          obtain ⟨inside, rfl, -⟩ := exists_of_directive 0 hfound
          exact ⟨(List.suffix_append _ _).trans (body_suffix hopens), .directive found, rfl,
            fun _ hrole => by cases hrole⟩
  split at h
  · split at h
    · cases h
    · next found others hfound =>
        cases h
        obtain ⟨inside, rfl, -⟩ := exists_of_header 0 hfound
        refine ⟨List.suffix_append _ _, .enter found, rfl, fun opened hrole => ?_⟩
        cases hrole
        exact header_start hfound
  split at h
  · cases h
  · next others hafter =>
      cases h
      refine ⟨?_, .begin, rfl, fun _ hrole => by cases hrole⟩
      split at hafter
      · exact afterGroup_suffix hafter
      · obtain ⟨closed, segment, hsegment, -, -⟩ := exists_member_of_afterMember hafter
        -- only in front of a closing brace may a member be empty
        exact suffix_of_lt ⟨segment, hsegment.symm⟩ (length_afterMember hclosing hafter)

/-! ## Open namespaces -/

/-- The namespaces that lead inwards begin before the end of the file and of all that is left. -/
def Opened (size : Nat) (rest : List Token) (state : State) : Prop :=
  ∀ level ∈ state.outer, level.1.start ≤ size ∧ ∀ token ∈ rest, level.1.start ≤ token.stop

theorem Opened.suffix (h : Opened size rest state) (hsuffix : rest' <:+ rest) :
    Opened size rest' state := fun level hlevel =>
  ⟨(h level hlevel).1, fun token htoken => (h level hlevel).2 token (hsuffix.mem htoken)⟩

theorem Opened.leave (h : Opened size rest state) (stop : Nat) :
    Opened size rest (state.leave stop) := by
  obtain ⟨block, _ | ⟨⟨opened, around⟩, outer⟩, late⟩ := state
  · exact h
  · exact fun level hlevel => h level (List.mem_cons_of_mem _ hlevel)

theorem Opened.addDirective (h : Opened size rest state) (found : Directive) :
    Opened size rest (state.addDirective found) := by
  unfold State.addDirective
  split <;> exact h

theorem Opened.enter (h : Opened size rest state) (hsize : opened.start ≤ size)
    (hrest : ∀ token ∈ rest, opened.start ≤ token.stop) : Opened size rest (state.enter opened) :=
  List.forall_mem_cons.mpr ⟨⟨hsize, hrest⟩, h⟩

/-- A turn keeps the open namespaces in front of what is left. -/
theorem Opened.turn (h : Opened size (token :: rest) state)
    (hturn : Read.turn size state token rest = .ok (state', rest')) (hsize : token.start ≤ size)
    (hrest : ∀ other ∈ rest, token.start ≤ other.stop) : Opened size rest' state' := by
  obtain ⟨hsuffix, role, rfl, hstart⟩ := turn_cases hturn
  have hkept : Opened size rest' state := h.suffix (hsuffix.trans (List.suffix_cons token rest))
  cases role with
  | leave stop => exact hkept.leave stop
  | externAlias => exact hkept
  | directive found => exact hkept.addDirective found
  | enter opened =>
      have hstart := hstart opened rfl
      exact hkept.enter (hstart ▸ hsize) fun other hmem => hstart ▸ hrest other (hsuffix.mem hmem)
  | begin => exact hkept

namespace Cursor

theorem spansTo_eq {outer : List (Header × Block)} (h : ∀ level ∈ outer, level.1.start ≤ stop) :
    spansTo stop outer = .ok () := by
  induction outer with
  | nil => rfl
  | cons level outer ih =>
      obtain ⟨hlevel, houter⟩ := List.forall_mem_cons.mp h
      obtain ⟨opened, around⟩ := level
      rw [spansTo, spanOf_eq hlevel, ih houter]
      rfl

/-! ## What a turn begins with -/

theorem step_end_of_file (hopened : Opened text.size [] state) :
    step text tokens (before tokens [] .declarations state) =
      .ok (.done (declarations text.size state [])) := by
  have houter : spansTo text.size state.outer = .ok () :=
    spansTo_eq fun level hlevel => (hopened level hlevel).1
  simp only [step, before, stepDeclarations, head?_before (List.nil_suffix), List.head?_nil, houter,
    spanOf_eq (Nat.zero_le _), ok_bind, declarations]
  split <;> rfl

/-- A cursor once it has begun to read a declaration. -/
def declarationCursor (tokens : List Token) (state : State) (token : Token) (rest : List Token) : Cursor :=
  if token.isWord "extern" && rest.head?.any (·.isWord "alias") then
    before tokens (token :: rest) .externAlias state
  else match opensDirective? (token :: rest) with
    | some (isGlobal, body) => before tokens (dropWord "static" body).2
        (.directive token.start isGlobal (dropWord "static" body).1 none []) state
    | none =>
        if token.isWord "namespace" then before tokens rest (.header token.start []) state
        else if token.isMark '[' then
          before tokens (token :: rest) (.group '[' ']' token.start 0 false) state.begin
        else before tokens (token :: rest) .member state.begin

theorem step_declaration (hrow : Token.Row text tokens) (h : token :: rest <:+ tokens)
    (hclosing : token.isMark '\x7d' = false) :
    step text tokens (before tokens (token :: rest) .declarations state) =
      .ok (.going (declarationCursor tokens state token rest)) := by
  have hname := isWordAt_eq hrow (tokens.length - (token :: rest).length) "namespace"
  rw [head?_before h, List.head?_cons, Option.any_some] at hname
  simp only [step, before, stepDeclarations, head?_before h, List.head?_cons, hclosing,
    Bool.false_eq_true, if_false, opensAliasAt_eq hrow h, opensDirectiveAt_eq hrow h, hname, ok_bind,
    declarationCursor]
  by_cases halias : (token.isWord "extern" && rest.head?.any (·.isWord "alias")) = true
  · rw [if_pos halias, if_pos halias]
  rw [if_neg halias, if_neg halias]
  cases hopens : opensDirective? (token :: rest) with
  | some opened =>
      obtain ⟨isGlobal, body⟩ := opened
      simp only [Option.isSome_some, if_true]
      obtain ⟨keyword, hdrop⟩ := exists_using hopens
      have hkeyword := (dropWord_suffix "global" (token :: rest)).trans h
      rw [hdrop] at hkeyword
      simp only [passWord_eq hrow h, hdrop, ok_bind, position_succ hkeyword,
        passWord_eq hrow (((body_suffix hopens).trans (List.suffix_cons token rest)).trans h)]
  | none =>
      simp only [Option.isSome_none, Bool.false_eq_true, if_false, position_succ h]
      split_ifs <;> rfl

/-- Where a turn leads. -/
def landing (tokens : List Token) (state : State) :
    Except TreeError (State × List Token) → Progress
  | .ok (state', rest') => .going (before tokens rest' .declarations state')
  | .error error => .done ⟨state.late, .error error⟩

theorem step_closing (h : token :: rest <:+ tokens)
    (hopened : Opened text.size (token :: rest) state) (hclosing : token.isMark '\x7d' = true) :
    step text tokens (before tokens (token :: rest) .declarations state) =
      .ok (landing tokens state (turn text.size state token rest)) := by
  have hspans : spansTo token.stop (state.outer.take 1) = .ok () := spansTo_eq fun level hlevel =>
    (hopened level (List.mem_of_mem_take hlevel)).2 token List.mem_cons_self
  simp only [step, before, stepDeclarations, head?_before h, List.head?_cons, hclosing, if_true, hspans,
    ok_bind, position_succ h, turn]
  split <;> rfl

/-- The task that begins where a declaration does leads where a turn does. -/
theorem works_declaration (hrow : Token.Row text tokens) (h : token :: rest <:+ tokens)
    (hclosing : token.isMark '\x7d' = false) :
    Works text tokens (.going (declarationCursor tokens state token rest))
      (landing tokens state (turn text.size state token rest)) := by
  simp only [turn, hclosing, Bool.false_eq_true, if_false, declarationCursor]
  by_cases halias : (token.isWord "extern" && rest.head?.any (·.isWord "alias")) = true
  · -- what is skipped begins at `extern` itself, which is no semicolon
    have hmark : token.isMark ';' = false :=
      Token.isMark_of_isWord (Bool.and_eq_true_iff.mp halias).1
    have hworks := works_externAlias text state h
    rw [afterSemicolon, if_neg (by simp [hmark])] at hworks
    rw [if_pos halias, if_pos halias]
    cases hafter : afterSemicolon rest with
    | none => rwa [hafter] at hworks
    | some rest' => rwa [hafter] at hworks
  rw [if_neg halias, if_neg halias]
  cases hopens : opensDirective? (token :: rest) with
  | some opened =>
      obtain ⟨isGlobal, body⟩ := opened
      have hbody := (body_suffix hopens).trans (List.suffix_cons token rest)
      have hstatic := (dropWord_suffix "static" body).trans hbody
      have hworks := works_directive state token.start isGlobal (dropWord "static" body).1 hrow
        (hstatic.trans h) fun other hmem => hrow.start_le h other (hstatic.mem hmem)
      simp only [directive]
      cases hfound : directiveBody text.size token.start isGlobal (dropWord "static" body).1
          (dropWord "static" body).2 with
      | error error => rwa [hfound] at hworks
      | ok found => rwa [hfound] at hworks
  | none =>
      simp only
      by_cases hword : token.isWord "namespace" = true
      · have hworks := works_header hrow ((List.suffix_cons token rest).trans h) state token.start []
        rw [if_pos hword, if_pos hword]
        cases hfound : header text.size token.start state.isBraced [] rest with
        | error error => rwa [hfound] at hworks
        | ok found => rwa [hfound] at hworks
      rw [if_neg hword, if_neg hword]
      by_cases hbracket : token.isMark '[' = true
      · have hworks := works_group text state.begin ']' false h hbracket
        rw [if_pos hbracket, if_pos hbracket]
        cases hgroup : afterGroup '[' ']' token rest with
        | error error => rwa [hgroup] at hworks
        | ok rest' => rwa [hgroup] at hworks
      · have hworks := works_member text state.begin h
        rw [if_neg hbracket, if_neg hbracket]
        cases hmember : afterMember (token :: rest) with
        | error error => rwa [hmember] at hworks
        | ok rest' => rwa [hmember] at hworks

/-- No step of a turn is a trap. -/
theorem exists_turn (hrow : Token.Row text tokens) (h : token :: rest <:+ tokens)
    (hopened : Opened text.size (token :: rest) state) :
    ∃ next, step text tokens (before tokens (token :: rest) .declarations state) = .ok next ∧
      Works text tokens next (landing tokens state (turn text.size state token rest)) := by
  by_cases hclosing : token.isMark '\x7d' = true
  · exact ⟨_, step_closing h hopened hclosing, .refl _⟩
  · rw [Bool.not_eq_true] at hclosing
    exact ⟨_, step_declaration hrow h hclosing, works_declaration hrow h hclosing⟩

/-! ## Whole runs -/

def turns (path : List Cursor) : List Nat :=
  (path.filter (·.task.isTurn)).map (·.position)

/-- A path that stays among the tokens, in turns that each begin behind the one before, the first of
them in front of what is left. -/
structure Onward (tokens rest : List Token) (path : List Cursor) : Prop where
  inside : ∀ cursor ∈ path, cursor.position ≤ tokens.length
  behind : ∀ position ∈ turns path, tokens.length - rest.length ≤ position
  advances : (turns path).Pairwise (· < ·)

/-- One turn in front of the others. -/
theorem Onward.cons {quiet path : List Cursor} (state : State) (h : token :: rest <:+ tokens)
    (hrest : rest' <:+ rest)
    (hquiet : ∀ cursor ∈ quiet, cursor.task.isTurn = false ∧ cursor.position ≤ tokens.length)
    (hpath : Onward tokens rest' path) :
    Onward tokens (token :: rest)
      (before tokens (token :: rest) .declarations state :: (quiet ++ path)) := by
  have hturns : turns (before tokens (token :: rest) .declarations state :: (quiet ++ path)) =
      (tokens.length - (token :: rest).length) :: turns path := by
    have hnone : quiet.filter (·.task.isTurn) = [] := List.filter_eq_nil_iff.mpr fun cursor hmem => by
      simp [(hquiet cursor hmem).1]
    simp only [turns, List.filter_cons, List.filter_append, hnone, List.nil_append]
    rfl
  have hfurther : ∀ position ∈ turns path, tokens.length - (token :: rest).length < position :=
    fun position hmem => by
      have hposition := hpath.behind position hmem
      have hlength := h.length_le
      have hshorter := hrest.length_le
      rw [List.length_cons] at hlength ⊢
      omega
  refine ⟨List.forall_mem_cons.mpr ⟨Nat.sub_le _ _, List.forall_mem_append.mpr
    ⟨fun cursor hmem => (hquiet cursor hmem).2, hpath.inside⟩⟩, ?_, ?_⟩
  · rw [hturns]
    exact List.forall_mem_cons.mpr ⟨Nat.le_refl _, fun position hmem =>
      Nat.le_of_lt (hfurther position hmem)⟩
  · rw [hturns]
    exact List.pairwise_cons.mpr ⟨hfurther, hpath.advances⟩

/-- From the beginning of a turn, the cursor comes to the end that the reader comes to. -/
theorem exists_path {rest : List Token} {state : State} (hrow : Token.Row text tokens)
    (h : rest <:+ tokens) (hopened : Opened text.size rest state) :
    ∃ path, Leads text tokens (.going (before tokens rest .declarations state)) path
        (.done (declarations text.size state rest)) ∧ Onward tokens rest path := by
  match rest with
  | [] =>
      refine ⟨_, .step (step_end_of_file hopened) (.here _), ?_, ?_, ?_⟩
      · exact List.forall_mem_singleton.mpr (Nat.sub_le _ _)
      · exact List.forall_mem_singleton.mpr (Nat.le_refl _)
      · exact List.pairwise_singleton _ _
  | token :: rest =>
      obtain ⟨next, hstep, quiet, hquiet, hinside⟩ := exists_turn hrow h hopened
      rw [declarations_cons]
      cases hturn : turn text.size state token rest with
      | error error =>
          have hnone : Onward tokens [] [] := ⟨List.forall_mem_nil _, List.forall_mem_nil _, .nil⟩
          have honward := Onward.cons state h List.nil_suffix hinside hnone
          rw [List.append_nil] at honward
          rw [hturn] at hquiet
          exact ⟨_, .step hstep hquiet, honward⟩
      | ok found =>
          obtain ⟨state', rest'⟩ := found
          have hrest := (turn_cases hturn).1
          have hcuts := hrow.cuts token (h.mem List.mem_cons_self)
          have hopened' := hopened.turn hturn (Nat.le_trans hcuts.le hcuts.inside)
            fun other hmem => hrow.start_le h other (List.mem_cons_of_mem _ hmem)
          obtain ⟨path, hpath, honward⟩ :=
            exists_path hrow (hrest.trans ((List.suffix_cons token rest).trans h)) hopened'
          rw [hturn] at hquiet
          exact ⟨_, .step hstep (hquiet.trans hpath), honward.cons state h hrest hinside⟩
termination_by rest.length
decreasing_by exact Nat.lt_succ_of_le hrest.length_le

end Cursor

end Read

/-- **Reading comes to an end without a trap.** A cursor that counts its position, its brackets and the
bounds of its spans, and cuts what it reads out of the text, gets through the tokens of any text: it
never goes behind the last of them, every turn begins behind the one before, and it ends with what the
reader gives. -/
theorem CSharp.read_by_cursor (text : Text) :
    match tokenize text with
    | .error error => CSharp.read text = ([], .error (.scan error))
    | .ok tokens =>
        (∀ token ∈ tokens, token.span.Cuts text ∧ token.span.slice text = token.lexeme) ∧
          ∃ path outcome,
            Read.Cursor.Leads text (Token.code tokens) (.going ⟨0, .declarations, {}⟩) path
              (.done outcome) ∧
            CSharp.read text = (outcome.late, outcome.result.mapError .tree) ∧
            (∀ cursor ∈ path, cursor.position ≤ (Token.code tokens).length) ∧
            (Read.Cursor.turns path).Pairwise (· < ·) := by
  cases htokens : tokenize text with
  | error error => simp only [CSharp.read, htokens]
  | ok tokens =>
      have htile := (source_of_tokenize htokens).tile
      have hopened : Read.Opened text.size (Token.code tokens) {} :=
        fun _ hlevel => by cases hlevel
      obtain ⟨path, hpath, honward⟩ :=
        Read.Cursor.exists_path htile.row (List.suffix_refl _) hopened
      rw [Read.Cursor.before, Nat.sub_self] at hpath
      refine ⟨fun token hmem => ⟨?_, htile.slice token hmem⟩, path, _, hpath, ?_, honward.inside,
        honward.advances⟩
      · exact htile.cuts hmem hmem (Nat.le_of_lt (htile.nonempty token hmem))
      · simp only [CSharp.read, htokens]
        rw [← Token.code]
        cases (Read.declarations text.size {} (Token.code tokens)).result <;> rfl

end CSharpTidy
