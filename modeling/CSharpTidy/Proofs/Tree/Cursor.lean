import CSharpTidy.Proofs.Tree.Nesting

/-!
# Reading by positions

The reader passes the rest of the tokens on, so it cannot miscount. Here a file is read with a cursor
that counts tokens, one token at a time, and looks names up in the text: it could run past the last
token, stand still, count brackets below zero, or cut a part out of the text that is none. Such a
step is a trap. One turn of the loop over declarations begins wherever the cursor is at `declarations`.
-/

namespace CSharpTidy

namespace Read

/-- What reading by positions could come to grief on. -/
inductive Trap where
  /-- A bracket is closed where none is open. -/
  | underflow
  /-- A span ends before it begins. -/
  | reversed (start stop : Nat)
  /-- A part of the text runs out of it or cuts through a character. -/
  | torn (span : Span)
deriving DecidableEq, Repr

/-- What a cursor is in the middle of. -/
inductive Task where
  | declarations
  | externAlias
  | group (opening closing : Char) (start depth : Nat) (inMember : Bool)
  | member
  | directive (start : Nat) (isGlobal isStatic : Bool) (alias? : Option Text) (parts : List Token)
  | header (start : Nat) (name : Text)

namespace Task

def isTurn : Task → Bool
  | declarations => true
  | _ => false

end Task

/-- A place among the tokens of a file, what is being read there, and what has been read. -/
structure Cursor where
  position : Nat
  task : Task
  state : State

/-- What a step leads to. -/
inductive Progress where
  | going (cursor : Cursor)
  | done (outcome : Outcome)

namespace Cursor

section Parts

variable (text : Text) (tokens : List Token)

/-- A span, unless it ends before it begins. -/
def spanOf (start stop : Nat) : Except Trap Span :=
  if start ≤ stop then .ok ⟨start, stop⟩ else .error (.reversed start stop)

/-- What the text holds where a token stands. -/
def lexemeOf (token : Token) : Except Trap Text :=
  if token.span.Cuts text then .ok (token.span.slice text) else .error (.torn token.span)

/-- What the text holds where tokens stand, without anything between them. -/
def spellingOf : List Token → Except Trap Text
  | [] => .ok []
  | token :: parts => do
      let lexeme ← lexemeOf text token
      let rest ← spellingOf parts
      .ok (lexeme ++ rest)

def isMarkAt (position : Nat) (mark : Char) : Bool := tokens[position]?.any (·.isMark mark)

def isWordAt (position : Nat) (word : String) : Except Trap Bool :=
  match tokens[position]? with
  | none => .ok false
  | some token =>
      if token.kind == .identifier then do
        let lexeme ← lexemeOf text token
        .ok (lexeme == word.toList)
      else .ok false

def passWord (position : Nat) (word : String) : Except Trap (Bool × Nat) := do
  let isThere ← isWordAt text tokens position word
  .ok (isThere, if isThere then position + 1 else position)

def opensAliasAt (position : Nat) : Except Trap Bool := do
  if ← isWordAt text tokens position "extern" then isWordAt text tokens (position + 1) "alias"
  else .ok false

def opensDirectiveAt (position : Nat) : Except Trap Bool := do
  let (_, position) ← passWord text tokens position "global"
  if ← isWordAt text tokens position "using" then
    if isMarkAt tokens (position + 1) '(' then .ok false
    else do
      let isVariable ← isWordAt text tokens (position + 1) "var"
      .ok !isVariable
  else .ok false

/-- The spans of the namespaces that lead inwards, where all of them end at `stop`. -/
def spansTo (stop : Nat) : List (Header × Block) → Except Trap Unit
  | [] => .ok ()
  | (header, _) :: outer => do
      let _ ← spanOf header.start stop
      spansTo stop outer

end Parts

section Step

variable (text : Text) (tokens : List Token) (position : Nat) (state : State)

/-- What a turn begins with: the end of the file or of a block, or the first look at a declaration. -/
def stepDeclarations : Except Trap Progress :=
  match tokens[position]? with
  | none =>
      if state.isBraced then .ok (.done ⟨state.late, .error ⟨.unclosedBlock, text.size⟩⟩)
      else do
        spansTo text.size state.outer
        let _ ← spanOf 0 text.size
        .ok (.done ⟨state.late, .ok (State.close text.size state.block state.outer)⟩)
  | some token =>
      if token.isMark '\x7d' then
        if state.isBraced then do
          spansTo token.stop (state.outer.take 1)
          .ok (.going ⟨position + 1, .declarations, state.leave token.stop⟩)
        else .ok (.done ⟨state.late, .error ⟨.strayBrace, token.start⟩⟩)
      else do
        if ← opensAliasAt text tokens position then .ok (.going ⟨position, .externAlias, state⟩)
        else if ← opensDirectiveAt text tokens position then
          let (isGlobal, position) ← passWord text tokens position "global"
          let (isStatic, position) ← passWord text tokens (position + 1) "static"
          .ok (.going ⟨position, .directive token.start isGlobal isStatic none [], state⟩)
        else if ← isWordAt text tokens position "namespace" then
          .ok (.going ⟨position + 1, .header token.start [], state⟩)
        else if token.isMark '[' then
          .ok (.going ⟨position, .group '[' ']' token.start 0 false, state.begin⟩)
        else .ok (.going ⟨position, .member, state.begin⟩)

def stepExternAlias : Progress :=
  match tokens[position]? with
  | none => .done ⟨state.late, .error ⟨.unclosedAlias, text.size⟩⟩
  | some token =>
      .going ⟨position + 1, if token.isMark ';' then .declarations else .externAlias, state⟩

/-- One token of a group in brackets, `depth` of which are open. -/
def stepGroup (opening closing : Char) (start depth : Nat) (inMember : Bool) :
    Except Trap Progress :=
  match tokens[position]? with
  | none => .ok (.done ⟨state.late, .error ⟨.unbalanced opening, start⟩⟩)
  | some token =>
      if token.isMark opening then
        .ok (.going ⟨position + 1, .group opening closing start (depth + 1) inMember, state⟩)
      else if token.isMark closing then
        match depth with
        | 0 => .error .underflow
        | 1 => .ok (.going ⟨position + 1, if inMember then .member else .declarations, state⟩)
        | depth + 2 =>
            .ok (.going ⟨position + 1, .group opening closing start (depth + 1) inMember, state⟩)
      else .ok (.going ⟨position + 1, .group opening closing start depth inMember, state⟩)

/-- One token of a member that is no namespace, or the first look at a group in it. -/
def stepMember : Progress :=
  match tokens[position]? with
  | none => .going ⟨position, .declarations, state⟩
  | some token =>
      if token.isMark ';' then .going ⟨position + 1, .declarations, state⟩
      else if token.isMark '\x7d' then .going ⟨position, .declarations, state⟩
      else if token.isMark '\x7b' then
        .going ⟨position, .group '\x7b' '\x7d' token.start 0 false, state⟩
      else if token.isMark '(' then .going ⟨position, .group '(' ')' token.start 0 true, state⟩
      else if token.isMark '[' then .going ⟨position, .group '[' ']' token.start 0 true, state⟩
      else .going ⟨position + 1, .member, state⟩

def kindOf (isStatic : Bool) : Option Text → DirectiveKind
  | some name => .alias name
  | none => if isStatic then .static else .namespace

/-- One token of a directive, behind its keywords. -/
def stepDirective (start : Nat) (isGlobal isStatic : Bool) (alias? : Option Text)
    (parts : List Token) : Except Trap Progress :=
  match tokens[position]? with
  | none => .ok (.done ⟨state.late, .error ⟨.unclosedDirective, text.size⟩⟩)
  | some token =>
      if token.isMark ';' then
        match parts.head?, parts.getLast? with
        | some first, some last => do
            let nameSpan ← spanOf (min first.start last.start) (max first.stop last.stop)
            let name ← spellingOf text parts
            let span ← spanOf start token.stop
            .ok (.going ⟨position + 1, .declarations,
              state.addDirective ⟨span, name, nameSpan, kindOf isStatic alias?, isGlobal⟩⟩)
        | _, _ => .ok (.done ⟨state.late, .error ⟨.emptyDirective, token.start⟩⟩)
      else if token.isMark '=' && alias?.isNone && !parts.isEmpty then do
        let name ← spellingOf text parts
        .ok (.going ⟨position + 1, .directive start isGlobal isStatic (some name) [], state⟩)
      else if token.isMark '\x7b' || token.isMark '\x7d' then
        .ok (.done ⟨state.late, .error ⟨.unclosedDirective, token.start⟩⟩)
      else
        .ok (.going
          ⟨position + 1, .directive start isGlobal isStatic alias? (parts ++ [token]), state⟩)

/-- One token of the name of a namespace, or what ends it. -/
def stepHeader (start : Nat) (name : Text) : Except Trap Progress :=
  match tokens[position]? with
  | none => .ok (.done ⟨state.late, .error ⟨.unclosedNamespace, text.size⟩⟩)
  | some token =>
      if token.isMark '\x7b' then
        .ok (.going ⟨position + 1, .declarations, state.enter ⟨start, name, false⟩⟩)
      else if token.isMark ';' then
        if state.isBraced then .ok (.done ⟨state.late, .error ⟨.nestedFileScope, token.start⟩⟩)
        else .ok (.going ⟨position + 1, .declarations, state.enter ⟨start, name, true⟩⟩)
      else if token.kind == .identifier || token.isMark '.' then do
        let lexeme ← lexemeOf text token
        .ok (.going ⟨position + 1, .header start (name ++ lexeme), state⟩)
      else .ok (.done ⟨state.late, .error ⟨.badNamespaceName, token.start⟩⟩)

end Step

/-- One step of a cursor over the tokens of a text. -/
def step (text : Text) (tokens : List Token) : Cursor → Except Trap Progress
  | ⟨position, .declarations, state⟩ => stepDeclarations text tokens position state
  | ⟨position, .externAlias, state⟩ => .ok (stepExternAlias text tokens position state)
  | ⟨position, .group opening closing start depth inMember, state⟩ =>
      stepGroup tokens position state opening closing start depth inMember
  | ⟨position, .member, state⟩ => .ok (stepMember tokens position state)
  | ⟨position, .directive start isGlobal isStatic alias? parts, state⟩ =>
      stepDirective text tokens position state start isGlobal isStatic alias? parts
  | ⟨position, .header start name, state⟩ => stepHeader text tokens position state start name

/-- In a group that has not been entered at its opening bracket, the closing one is a trap. -/
example (state : State) : step [')'] [⟨.punctuation ')', [')'], 0⟩]
    ⟨0, .group '(' ')' 0 0 true, state⟩ = .error .underflow := rfl

/-- Steps without a trap, and the cursors from which they are taken. -/
inductive Leads (text : Text) (tokens : List Token) : Progress → List Cursor → Progress → Prop
  | here (progress : Progress) : Leads text tokens progress [] progress
  | step {cursor : Cursor} {next last : Progress} {path : List Cursor}
      (hstep : step text tokens cursor = .ok next) (hrest : Leads text tokens next path last) :
      Leads text tokens (.going cursor) (cursor :: path) last

theorem Leads.trans {text : Text} {tokens : List Token} {first second last : Progress}
    {path path' : List Cursor} (h : Leads text tokens first path second)
    (h' : Leads text tokens second path' last) : Leads text tokens first (path ++ path') last := by
  induction h with
  | here => exact h'
  | step hstep _ ih => exact .step hstep (ih h')

end Cursor

end Read

end CSharpTidy
