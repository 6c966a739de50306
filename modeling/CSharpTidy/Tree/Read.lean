import CSharpTidy.Token.Scan
import CSharpTidy.Tree.Basic

namespace CSharpTidy

inductive TreeFault where
  | unclosedBlock
  | strayBrace
  | unclosedAlias
  | unclosedDirective
  | emptyDirective
  | unclosedNamespace
  | badNamespaceName
  | nestedFileScope
  | unbalanced (bracket : Char)
deriving DecidableEq, Repr

namespace TreeFault

def message : TreeFault → String
  | unclosedBlock => "expected '\x7d' before end of file"
  | strayBrace => "unexpected '\x7d'"
  | unclosedAlias => "expected ';'"
  | unclosedDirective => "expected ';' after using directive"
  | emptyDirective => "empty using directive"
  | unclosedNamespace => "expected '\x7b' or ';' after namespace name"
  | badNamespaceName => "unexpected token in namespace name"
  | nestedFileScope => "file-scoped namespace inside a namespace block"
  | unbalanced bracket => "unbalanced '" ++ String.singleton bracket ++ "'"

end TreeFault

structure TreeError where
  fault : TreeFault
  offset : Nat
deriving DecidableEq, Repr

namespace Read

def afterSemicolon : List Token → Option (List Token)
  | [] => none
  | token :: tokens => if token.isMark ';' then some tokens else afterSemicolon tokens

/-- What follows the bracket that closes `depth` opening ones. -/
def afterClosing (opening closing : Char) (depth : Nat) : List Token → Option (List Token)
  | [] => none
  | token :: tokens =>
      if token.isMark opening then afterClosing opening closing (depth + 1) tokens
      else if token.isMark closing then
        if depth ≤ 1 then some tokens else afterClosing opening closing (depth - 1) tokens
      else afterClosing opening closing depth tokens

def afterGroup (opening closing : Char) (bracket : Token) (tokens : List Token) :
    Except TreeError (List Token) :=
  match afterClosing opening closing 1 tokens with
  | some rest => .ok rest
  | none => .error ⟨.unbalanced opening, bracket.start⟩

theorem length_afterSemicolon {tokens rest : List Token} (h : afterSemicolon tokens = some rest) :
    rest.length < tokens.length := by
  induction tokens with
  | nil => simp [afterSemicolon] at h
  | cons token tokens ih =>
      unfold afterSemicolon at h
      split at h
      · cases h
        simp
      · have := ih h
        simp only [List.length_cons]
        omega

theorem length_afterClosing {opening closing : Char} {depth : Nat} {tokens rest : List Token}
    (h : afterClosing opening closing depth tokens = some rest) : rest.length < tokens.length := by
  induction tokens generalizing depth with
  | nil => simp [afterClosing] at h
  | cons token tokens ih =>
      unfold afterClosing at h
      simp only [List.length_cons]
      split at h
      · have := ih h
        omega
      · split at h
        · split at h
          · cases h
            omega
          · have := ih h
            omega
        · have := ih h
          omega

theorem length_afterGroup {opening closing : Char} {bracket : Token} {tokens rest : List Token}
    (h : afterGroup opening closing bracket tokens = .ok rest) : rest.length < tokens.length := by
  unfold afterGroup at h
  split at h
  · next found =>
      cases h
      exact length_afterClosing found
  · cases h

/-- What follows a member that is no namespace: it ends with a semicolon, with its block in braces,
or before the brace that closes the enclosing block. -/
def afterMember : List Token → Except TreeError (List Token)
  | [] => .ok []
  | token :: tokens =>
      if token.isMark ';' then .ok tokens
      else if token.isMark '\x7d' then .ok (token :: tokens)
      else if token.isMark '\x7b' then afterGroup '\x7b' '\x7d' token tokens
      else if token.isMark '(' then
        match _ : afterGroup '(' ')' token tokens with
        | .error error => .error error
        | .ok rest => afterMember rest
      else if token.isMark '[' then
        match _ : afterGroup '[' ']' token tokens with
        | .error error => .error error
        | .ok rest => afterMember rest
      else afterMember tokens
termination_by tokens => tokens.length
decreasing_by
  · have := length_afterGroup ‹_›
    simp only [List.length_cons]
    omega
  · have := length_afterGroup ‹_›
    simp only [List.length_cons]
    omega
  · simp

theorem length_afterMember_le {tokens rest : List Token} (h : afterMember tokens = .ok rest) :
    rest.length ≤ tokens.length := by
  fun_induction afterMember tokens with
  | case1 => cases h; exact Nat.le_refl _
  | case2 => cases h; simp
  | case3 => cases h; exact Nat.le_refl _
  | case4 =>
      have := length_afterGroup h
      simp only [List.length_cons]
      omega
  | case5 => cases h
  | case6 _ _ _ _ _ _ _ found ih =>
      have := length_afterGroup found
      have := ih h
      simp only [List.length_cons]
      omega
  | case7 => cases h
  | case8 _ _ _ _ _ _ _ _ found ih =>
      have := length_afterGroup found
      have := ih h
      simp only [List.length_cons]
      omega
  | case9 _ _ _ _ _ _ _ ih =>
      have := ih h
      simp only [List.length_cons]
      omega

theorem length_afterMember {token : Token} {tokens rest : List Token}
    (unclosed : ¬token.isMark '\x7d' = true) (h : afterMember (token :: tokens) = .ok rest) :
    rest.length < (token :: tokens).length := by
  unfold afterMember at h
  simp only [List.length_cons]
  split at h
  · cases h
    omega
  · split at h
    · have := length_afterGroup h
      omega
    · split at h
      · split at h
        · cases h
        · next found =>
            have := length_afterGroup found
            have := length_afterMember_le h
            omega
      · split at h
        · split at h
          · cases h
          · next found =>
              have := length_afterGroup found
              have := length_afterMember_le h
              omega
        · have := length_afterMember_le h
          omega

def joined (tokens : List Token) : Text := (tokens.map Token.lexeme).flatten

/-- The name and kind of a directive from the tokens between its keywords and its semicolon. The
first `=` that something precedes splits an alias from its target. -/
def directiveName (isStatic : Bool) (parts : List Token) : DirectiveKind × List Token :=
  let kind := if isStatic then .static else .namespace
  match parts with
  | [] => (kind, [])
  | first :: others =>
      let before := others.takeWhile fun token => !token.isMark '='
      match others.drop before.length with
      | [] => (kind, parts)
      | _ :: target => (.alias (joined (first :: before)), target)

/-- The directive whose first token starts at `start`, from the tokens after its keywords, and what
follows it. `size` is the offset of the end of the file. -/
def directiveBody (size start : Nat) (isGlobal isStatic : Bool) (tokens : List Token) :
    Except TreeError (Directive × List Token) :=
  let ends := fun token : Token => token.isMark ';' || token.isMark '\x7b' || token.isMark '\x7d'
  let parts := tokens.takeWhile fun token => !ends token
  match tokens.drop parts.length with
  | [] => .error ⟨.unclosedDirective, size⟩
  | token :: rest =>
      if token.isMark ';' then
        let (kind, name) := directiveName isStatic parts
        match name.head?, name.getLast? with
        | some first, some last =>
            let nameSpan := first.span.cover last.span
            .ok (⟨⟨start, token.stop⟩, joined name, nameSpan, kind, isGlobal⟩, rest)
        | _, _ => .error ⟨.emptyDirective, token.start⟩
      else .error ⟨.unclosedDirective, token.start⟩

def dropWord (word : String) : List Token → Bool × List Token
  | [] => (false, [])
  | token :: tokens => if token.isWord word then (true, tokens) else (false, token :: tokens)

/-- The tokens after `using` and whether `global` stands before it, if the tokens begin with a
directive and not with a using statement. -/
def opensDirective? (tokens : List Token) : Option (Bool × List Token) :=
  let (isGlobal, rest) := dropWord "global" tokens
  match rest with
  | [] => none
  | token :: body =>
      if token.isWord "using" then
        match body with
        | [] => some (isGlobal, [])
        | next :: _ => if next.isMark '(' || next.isWord "var" then none else some (isGlobal, body)
      else none

def directive (size start : Nat) (isGlobal : Bool) (tokens : List Token) :
    Except TreeError (Directive × List Token) :=
  let (isStatic, body) := dropWord "static" tokens
  directiveBody size start isGlobal isStatic body

theorem length_dropWord (word : String) (tokens : List Token) :
    (dropWord word tokens).2.length ≤ tokens.length := by
  unfold dropWord
  split
  · exact Nat.le_refl _
  · split
    · simp
    · exact Nat.le_refl _

theorem length_opensDirective? {tokens rest : List Token} {isGlobal : Bool}
    (h : opensDirective? tokens = some (isGlobal, rest)) : rest.length < tokens.length := by
  have dropped := length_dropWord "global" tokens
  unfold opensDirective? at h
  simp only at h
  split at h
  · cases h
  · next token body found =>
      rw [found, List.length_cons] at dropped
      split at h
      · split at h
        · cases h
          simp only [List.length_nil]
          omega
        · split at h
          · cases h
          · cases h
            omega
      · cases h

theorem length_directive {size start : Nat} {isGlobal : Bool} {tokens rest : List Token}
    {found : Directive} (h : directive size start isGlobal tokens = .ok (found, rest)) :
    rest.length < tokens.length := by
  have dropped := length_dropWord "static" tokens
  unfold directive directiveBody at h
  simp only at h
  split at h
  · cases h
  · next token others taken =>
      have bound := congrArg List.length taken
      rw [List.length_drop, List.length_cons] at bound
      split at h
      · split at h
        · cases h
          omega
        · cases h
      · cases h

structure Header where
  start : Nat
  name : Text
  fileScoped : Bool

def header (size start : Nat) (nested : Bool) (name : Text) :
    List Token → Except TreeError (Header × List Token)
  | [] => .error ⟨.unclosedNamespace, size⟩
  | token :: tokens =>
      if token.isMark '\x7b' then .ok (⟨start, name, false⟩, tokens)
      else if token.isMark ';' then
        if nested then .error ⟨.nestedFileScope, token.start⟩
        else .ok (⟨start, name, true⟩, tokens)
      else if token.kind == .identifier || token.isMark '.' then
        header size start nested (name ++ token.lexeme) tokens
      else .error ⟨.badNamespaceName, token.start⟩

theorem length_header {size start : Nat} {nested : Bool} {name : Text} {tokens rest : List Token}
    {found : Header} (h : header size start nested name tokens = .ok (found, rest)) :
    rest.length < tokens.length := by
  induction tokens generalizing name with
  | nil => simp [header] at h
  | cons token tokens ih =>
      unfold header at h
      simp only [List.length_cons]
      split at h
      · cases h
        omega
      · split at h
        · split at h
          · cases h
          · cases h
            omega
        · split at h
          · have := ih h
            omega
          · cases h

/-- The declarations of a block read so far. -/
structure Block where
  directives : List Directive := []
  namespaces : List Namespace := []
  /-- Whether something other than a directive has come. -/
  begun : Bool := false

/-- A reading of a file up to some token: the innermost open block, the blocks around it with the
headers of the namespaces that lead inwards, and the late directives met. -/
structure State where
  block : Block := {}
  outer : List (Header × Block) := []
  late : List Text := []

namespace State

/-- Whether a closing brace is due. -/
def isBraced (state : State) : Bool :=
  match state.outer with
  | [] => false
  | (header, _) :: _ => !header.fileScoped

/-- Takes in a directive. One that follows other declarations belongs to no block. -/
def addDirective (state : State) (directive : Directive) : State :=
  if state.block.begun then { state with late := state.late ++ [directive.name] }
  else
    { state with block := { state.block with directives := state.block.directives ++ [directive] } }

def begin (state : State) : State := { state with block := { state.block with begun := true } }

def enter (state : State) (header : Header) : State :=
  { state with block := {}, outer := (header, state.block) :: state.outer }

def addNamespace (header : Header) (outer inner : Block) (stop : Nat) : Block :=
  let added : Namespace :=
    ⟨header.name, ⟨header.start, stop⟩, header.fileScoped, inner.directives, inner.namespaces⟩
  { outer with namespaces := outer.namespaces ++ [added], begun := true }

def leave (state : State) (stop : Nat) : State :=
  match state.outer with
  | [] => state
  | (header, block) :: outer =>
      { state with block := addNamespace header block state.block stop, outer }

/-- The file of a block and the blocks around it, all of which end at `size`. -/
def close (size : Nat) (block : Block) : List (Header × Block) → Tree
  | [] => ⟨⟨0, size⟩, block.directives, block.namespaces⟩
  | (header, outer) :: rest => close size (addNamespace header outer block size) rest

end State

/-- What reading the declarations of a file gave: the names of the directives that came too late,
and the tree if there is one. -/
structure Outcome where
  late : List Text
  result : Except TreeError Tree

/-- Reads declarations to the end of a file, which lies at the offset `size`. -/
def declarations (size : Nat) (state : State) : List Token → Outcome
  | [] =>
      if state.isBraced then ⟨state.late, .error ⟨.unclosedBlock, size⟩⟩
      else ⟨state.late, .ok (State.close size state.block state.outer)⟩
  | token :: tokens =>
      if _ : token.isMark '\x7d' then
        if state.isBraced then declarations size (state.leave token.stop) tokens
        else ⟨state.late, .error ⟨.strayBrace, token.start⟩⟩
      else if token.isWord "extern" && tokens.head?.any (·.isWord "alias") then
        -- an external alias is passed over, and directives may still follow it
        match _ : afterSemicolon tokens with
        | none => ⟨state.late, .error ⟨.unclosedAlias, size⟩⟩
        | some rest => declarations size state rest
      else
        match _ : opensDirective? (token :: tokens) with
        | some (isGlobal, body) =>
            match _ : directive size token.start isGlobal body with
            | .error error => ⟨state.late, .error error⟩
            | .ok (found, rest) => declarations size (state.addDirective found) rest
        | none =>
            if token.isWord "namespace" then
              match _ : header size token.start state.isBraced [] tokens with
              | .error error => ⟨state.late, .error error⟩
              | .ok (found, rest) => declarations size (state.enter found) rest
            else if token.isMark '[' then
              -- attributes begin a declaration, whatever follows them
              match _ : afterGroup '[' ']' token tokens with
              | .error error => ⟨state.late, .error error⟩
              | .ok rest => declarations size state.begin rest
            else
              match _ : afterMember (token :: tokens) with
              | .error error => ⟨state.late, .error error⟩
              | .ok rest => declarations size state.begin rest
termination_by tokens => tokens.length
decreasing_by
  · simp
  · have := length_afterSemicolon ‹_›
    simp only [List.length_cons]
    omega
  · have := length_directive ‹_›
    have := length_opensDirective? ‹_›
    omega
  · have := length_header ‹_›
    simp only [List.length_cons]
    omega
  · have := length_afterGroup ‹_›
    simp only [List.length_cons]
    omega
  · exact length_afterMember ‹_› ‹_›

end Read

end CSharpTidy
