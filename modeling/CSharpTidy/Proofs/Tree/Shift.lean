import CSharpTidy.Proofs.Token.Shift
import CSharpTidy.Proofs.Tree.Outline
import CSharpTidy.Tree.Reader

/-!
# Declarations further on

The reader goes by the kinds and lexemes of tokens. Where all tokens stand further on by the same
distance, it reads the same declarations further on, or stops at the same error further on.
-/

namespace CSharpTidy

def Span.shift (distance : Nat) (span : Span) : Span :=
  ⟨span.start + distance, span.stop + distance⟩

theorem Span.cover_shift (distance : Nat) (first last : Span) :
    (first.shift distance).cover (last.shift distance) = (first.cover last).shift distance := by
  simp only [cover, shift, Nat.add_min_add_right, Nat.add_max_add_right]

@[simp] theorem Token.span_shift (distance : Nat) (token : Token) :
    (token.shift distance).span = token.span.shift distance := by
  rw [span, stop_shift, start_shift]
  rfl

def Directive.shift (distance : Nat) (directive : Directive) : Directive :=
  { directive with
    span := directive.span.shift distance
    nameSpan := directive.nameSpan.shift distance }

/-- The tree of a file whose declarations stand further on. The file still begins at its start. -/
def Tree.shift (distance : Nat) (tree : Tree) : Tree :=
  { tree.redraw (List.map (Directive.shift distance)) (· + distance) with
    span := ⟨tree.span.start, tree.span.stop + distance⟩ }

def TreeError.shift (distance : Nat) (error : TreeError) : TreeError :=
  { error with offset := error.offset + distance }

namespace Read

variable {distance : Nat} {α : Type}

def shiftBy (distance : Nat) (move : α → α) : Except TreeError α → Except TreeError α
  | .ok found => .ok (move found)
  | .error error => .error (error.shift distance)

abbrev shiftAll (distance : Nat) (tokens : List Token) : List Token := tokens.map (Token.shift distance)

abbrev shiftPair (distance : Nat) (move : α → α) (found : α × List Token) : α × List Token :=
  (move found.1, shiftAll distance found.2)

theorem afterSemicolon_shift (distance : Nat) (tokens : List Token) :
    afterSemicolon (shiftAll distance tokens) = (afterSemicolon tokens).map (shiftAll distance) := by
  induction tokens with
  | nil => rfl
  | cons token tokens ih =>
      rw [shiftAll, List.map_cons, afterSemicolon, afterSemicolon, Token.isMark_shift]
      split
      · rfl
      · exact ih

theorem afterClosing_shift (distance : Nat) (opening closing : Char) (depth : Nat)
    (tokens : List Token) :
    afterClosing opening closing depth (shiftAll distance tokens) =
      (afterClosing opening closing depth tokens).map (shiftAll distance) := by
  induction tokens generalizing depth with
  | nil => rfl
  | cons token tokens ih =>
      rw [shiftAll, List.map_cons, afterClosing, afterClosing, Token.isMark_shift, Token.isMark_shift]
      split
      · exact ih _
      split
      · split
        · rfl
        · exact ih _
      · exact ih _

theorem afterGroup_shift (distance : Nat) (opening closing : Char) (bracket : Token)
    (tokens : List Token) :
    afterGroup opening closing (bracket.shift distance) (shiftAll distance tokens) =
      shiftBy distance (shiftAll distance) (afterGroup opening closing bracket tokens) := by
  rw [afterGroup, afterGroup, afterClosing_shift]
  cases afterClosing opening closing 1 tokens <;> rfl

theorem afterMember_shift (distance : Nat) (tokens : List Token) :
    afterMember (shiftAll distance tokens) = shiftBy distance (shiftAll distance) (afterMember tokens) := by
  fun_induction afterMember tokens with
  | case1 =>
      rw [shiftAll, List.map_nil, afterMember]
      rfl
  | case2 token tokens hsemicolon => simp [afterMember, hsemicolon, shiftBy]
  | case3 token tokens hsemicolon hclosing => simp [afterMember, hsemicolon, hclosing, shiftBy]
  | case4 token tokens hsemicolon hclosing hopening =>
      simp only [shiftAll, List.map_cons, afterMember, Token.isMark_shift, hsemicolon, hclosing,
        hopening, if_true, if_false, Bool.false_eq_true]
      exact afterGroup_shift ..
  | case5 token tokens _ _ _ hmark error hgroup =>
      have hmark' : (token.shift distance).isMark '(' = true := hmark
      rw [shiftAll, List.map_cons, afterMember_of_parenthesis hmark', afterGroup_shift, hgroup]
      rfl
  | case6 token tokens _ _ _ hmark rest hgroup ih =>
      have hmark' : (token.shift distance).isMark '(' = true := hmark
      rw [shiftAll, List.map_cons, afterMember_of_parenthesis hmark', afterGroup_shift, hgroup]
      exact ih
  | case7 token tokens _ _ _ _ hbracket error hgroup =>
      have hbracket' : (token.shift distance).isMark '[' = true := hbracket
      rw [shiftAll, List.map_cons, afterMember_of_bracket hbracket', afterGroup_shift, hgroup]
      rfl
  | case8 token tokens _ _ _ _ hbracket rest hgroup ih =>
      have hbracket' : (token.shift distance).isMark '[' = true := hbracket
      rw [shiftAll, List.map_cons, afterMember_of_bracket hbracket', afterGroup_shift, hgroup]
      exact ih
  | case9 token tokens hsemicolon hclosing hopening hmark hbracket ih =>
      simp only [shiftAll, List.map_cons, afterMember, Token.isMark_shift, hsemicolon, hclosing,
        hopening, hmark, hbracket, if_false, Bool.false_eq_true]
      exact ih

/-! ## Directives -/

theorem joined_shift (distance : Nat) (tokens : List Token) :
    joined (shiftAll distance tokens) = joined tokens := by
  rw [joined, shiftAll, List.map_map]
  rfl

theorem directiveName_shift (distance : Nat) (isStatic : Bool) (parts : List Token) :
    directiveName isStatic (shiftAll distance parts) =
      ((directiveName isStatic parts).1, shiftAll distance (directiveName isStatic parts).2) := by
  cases parts with
  | nil => rfl
  | cons first others =>
      have hbefore : (shiftAll distance others).takeWhile (fun token => !token.isMark '=') =
          shiftAll distance (others.takeWhile fun token => !token.isMark '=') := by
        rw [shiftAll, List.takeWhile_map]
        rfl
      have hjoined := joined_shift distance (first :: others.takeWhile fun token => !token.isMark '=')
      rw [shiftAll, List.map_cons] at hjoined
      rw [shiftAll, List.map_cons, directiveName, directiveName, hbefore, List.length_map,
        ← List.map_drop]
      cases others.drop (others.takeWhile fun token => !token.isMark '=').length with
      | nil => rfl
      | cons equals target =>
          simp only [List.map_cons]
          rw [hjoined]

theorem directiveBody_shift (distance size start : Nat) (isGlobal isStatic : Bool)
    (tokens : List Token) :
    directiveBody (size + distance) (start + distance) isGlobal isStatic (shiftAll distance tokens) =
      shiftBy distance (shiftPair distance (Directive.shift distance))
        (directiveBody size start isGlobal isStatic tokens) := by
  let ends := fun token : Token => token.isMark ';' || token.isMark '\x7b' || token.isMark '\x7d'
  have hparts : (shiftAll distance tokens).takeWhile (fun token => !ends token) =
      shiftAll distance (tokens.takeWhile fun token => !ends token) := by
    rw [shiftAll, List.takeWhile_map]
    rfl
  rw [directiveBody, directiveBody]
  simp only
  rw [hparts, List.length_map, ← List.map_drop, directiveName_shift]
  cases tokens.drop (tokens.takeWhile fun token => !ends token).length with
  | nil => rfl
  | cons token rest =>
      rw [List.map_cons]
      by_cases hsemicolon : token.isMark ';' = true
      · have hshifted : (token.shift distance).isMark ';' = true := hsemicolon
        simp only [if_pos hsemicolon, if_pos hshifted]
        generalize directiveName isStatic (tokens.takeWhile fun token => !ends token) = found
        obtain ⟨kind, name⟩ := found
        simp only [List.head?_map, List.getLast?_map, joined_shift]
        cases name.head? with
        | none => rfl
        | some first =>
            cases name.getLast? with
            | none => rfl
            | some last =>
                simp only [Option.map_some, Token.span_shift, Token.stop_shift, Span.cover_shift]
                rfl
      · have hshifted : ¬(token.shift distance).isMark ';' = true := hsemicolon
        simp only [if_neg hsemicolon, if_neg hshifted]
        rfl

theorem dropWord_shift (distance : Nat) (word : String) (tokens : List Token) :
    dropWord word (shiftAll distance tokens) =
      ((dropWord word tokens).1, shiftAll distance (dropWord word tokens).2) := by
  cases tokens with
  | nil => rfl
  | cons token tokens =>
      rw [shiftAll, List.map_cons, dropWord, dropWord, Token.isWord_shift]
      split <;> rfl

theorem directive_shift (distance size start : Nat) (isGlobal : Bool) (tokens : List Token) :
    directive (size + distance) (start + distance) isGlobal (shiftAll distance tokens) =
      shiftBy distance (shiftPair distance (Directive.shift distance))
        (directive size start isGlobal tokens) := by
  rw [directive, dropWord_shift]
  exact directiveBody_shift ..

theorem opensDirective?_shift (distance : Nat) (tokens : List Token) :
    opensDirective? (shiftAll distance tokens) =
      (opensDirective? tokens).map fun found => (found.1, shiftAll distance found.2) := by
  rw [opensDirective?, opensDirective?, dropWord_shift]
  generalize dropWord "global" tokens = dropped
  obtain ⟨isGlobal, rest⟩ := dropped
  cases rest with
  | nil => rfl
  | cons token body =>
      simp only [shiftAll, List.map_cons, Token.isWord_shift]
      split
      · cases body with
        | nil => rfl
        | cons next body =>
            simp only [List.map_cons, Token.isMark_shift, Token.isWord_shift]
            split <;> rfl
      · rfl

theorem header_shift (distance size start : Nat) (nested : Bool) (name : Text) (tokens : List Token) :
    header (size + distance) (start + distance) nested name (shiftAll distance tokens) =
      shiftBy distance (shiftPair distance (Header.redraw (· + distance)))
        (header size start nested name tokens) := by
  induction tokens generalizing name with
  | nil => rfl
  | cons token tokens ih =>
      rw [shiftAll, List.map_cons, header, header, Token.isMark_shift, Token.isMark_shift,
        Token.isMark_shift]
      split
      · rfl
      split
      · split <;> rfl
      by_cases hpart : token.kind == .identifier || token.isMark '.'
      · rw [if_pos hpart]
        exact (if_pos hpart).trans (ih _)
      · rw [if_neg hpart]
        exact if_neg hpart

/-! ## Declarations -/

abbrev State.shift (distance : Nat) (state : State) : State :=
  state.redraw (List.map (Directive.shift distance)) (· + distance)

def Outcome.shift (distance : Nat) (outcome : Outcome) : Outcome :=
  { outcome with result := shiftBy distance (Tree.shift distance) outcome.result }

variable {size : Nat} {state : State} {token : Token} {tokens body : List Token} {isGlobal : Bool}

theorem shift_addDirective (distance : Nat) (state : State) (found : Directive) :
    (state.addDirective found).shift distance =
      (state.shift distance).addDirective (found.shift distance) := by
  obtain ⟨⟨directives, namespaces, begun⟩, outer, late⟩ := state
  cases begun with
  | false => simp [State.addDirective, State.redraw, Block.redraw]
  | true => simp [State.addDirective, State.redraw, Block.redraw, Directive.shift]

theorem shift_leave (distance : Nat) (state : State) (stop : Nat) :
    (state.leave stop).shift distance = (state.shift distance).leave (stop + distance) := by
  obtain ⟨block, outer, late⟩ := state
  cases outer with
  | nil => rfl
  | cons level outer =>
      simp only [State.leave, State.redraw, State.addNamespace, Block.redraw, List.map_cons,
        Namespace.redraw_append, Namespace.redraw, Header.redraw]

theorem shift_enter (distance : Nat) (state : State) (opened : Header) :
    (state.enter opened).shift distance =
      (state.shift distance).enter (opened.redraw (· + distance)) := by
  simp [State.enter, State.redraw, Block.redraw, Namespace.redraw]

theorem shift_close (distance size : Nat) (block : Block) (outer : List (Header × Block))
    (late : List Text) :
    (State.close size block outer).shift distance =
      State.close (size + distance) (State.shift distance ⟨block, outer, late⟩).block
        (State.shift distance ⟨block, outer, late⟩).outer := by
  induction outer generalizing block with
  | nil => rfl
  | cons level outer ih =>
      have hleave := congrArg State.block (shift_leave distance ⟨block, level :: outer, late⟩ size)
      calc (State.close size (State.addNamespace level.1 level.2 block size) outer).shift distance
          = State.close (size + distance)
              (State.shift distance ⟨State.addNamespace level.1 level.2 block size, outer, late⟩).block
              (State.shift distance ⟨State.addNamespace level.1 level.2 block size, outer, late⟩).outer :=
            ih _
        _ = State.close (size + distance) (State.shift distance ⟨block, level :: outer, late⟩).block
              (State.shift distance ⟨block, level :: outer, late⟩).outer :=
            congrArg (fun inner => State.close (size + distance) inner _) hleave

theorem isExternAlias_shift (distance : Nat) (token : Token) (tokens : List Token) :
    ((token.shift distance).isWord "extern" &&
        (shiftAll distance tokens).head?.any (·.isWord "alias")) =
      (token.isWord "extern" && tokens.head?.any (·.isWord "alias")) := by
  cases tokens <;> rfl

theorem declarations_of_opens (hmark : ¬token.isMark '\x7d' = true)
    (halias : ¬(token.isWord "extern" && tokens.head?.any (·.isWord "alias")) = true)
    (hopens : opensDirective? (token :: tokens) = some (isGlobal, body)) :
    declarations size state (shiftAll distance (token :: tokens)) =
      match directive size (token.start + distance) isGlobal (shiftAll distance body) with
      | .error error => ⟨state.late, .error error⟩
      | .ok (found, rest) => declarations size (state.addDirective found) rest := by
  have hmark' : ¬(token.shift distance).isMark '\x7d' = true := hmark
  have halias' := mt (isExternAlias_shift distance token tokens).symm.trans halias
  have hopens' := opensDirective?_shift distance (token :: tokens)
  rw [hopens, shiftAll, List.map_cons] at hopens'
  rw [shiftAll, List.map_cons, declarations, dif_neg hmark', if_neg halias', hopens',
    Option.map_some]
  simp only [Token.start_shift]
  cases directive size (token.start + distance) isGlobal (shiftAll distance body) <;> rfl

theorem declarations_of_opens_none (hmark : ¬token.isMark '\x7d' = true)
    (halias : ¬(token.isWord "extern" && tokens.head?.any (·.isWord "alias")) = true)
    (hopens : opensDirective? (token :: tokens) = none) :
    declarations size state (shiftAll distance (token :: tokens)) =
      if token.isWord "namespace" then
        match header size (token.start + distance) state.isBraced [] (shiftAll distance tokens) with
        | .error error => ⟨state.late, .error error⟩
        | .ok (opened, rest) => declarations size (state.enter opened) rest
      else
        match
          if token.isMark '[' then
            afterGroup '[' ']' (token.shift distance) (shiftAll distance tokens)
          else afterMember (shiftAll distance (token :: tokens)) with
        | .error error => ⟨state.late, .error error⟩
        | .ok rest => declarations size state.begin rest := by
  have hmark' : ¬(token.shift distance).isMark '\x7d' = true := hmark
  have halias' := mt (isExternAlias_shift distance token tokens).symm.trans halias
  have hopens' := opensDirective?_shift distance (token :: tokens)
  rw [hopens, shiftAll, List.map_cons] at hopens'
  rw [shiftAll, List.map_cons, declarations, dif_neg hmark', if_neg halias', hopens',
    Option.map_none]
  simp only [Token.start_shift]
  by_cases hnamespace : token.isWord "namespace" = true
  · have hnamespace' : (token.shift distance).isWord "namespace" = true := hnamespace
    rw [if_pos hnamespace, if_pos hnamespace']
    cases header size (token.start + distance) state.isBraced [] (shiftAll distance tokens) <;> rfl
  have hnamespace' : ¬(token.shift distance).isWord "namespace" = true := hnamespace
  rw [if_neg hnamespace, if_neg hnamespace']
  by_cases hbracket : token.isMark '[' = true
  · have hbracket' : (token.shift distance).isMark '[' = true := hbracket
    rw [if_pos hbracket, if_pos hbracket']
    cases afterGroup '[' ']' (token.shift distance) (shiftAll distance tokens) <;> rfl
  · have hbracket' : ¬(token.shift distance).isMark '[' = true := hbracket
    rw [if_neg hbracket, if_neg hbracket']
    cases afterMember (token.shift distance :: tokens.map (Token.shift distance)) <;> rfl

/-- **Reading does not depend on where tokens stand.** -/
theorem declarations_shift (distance size : Nat) (state : State) (tokens : List Token) :
    declarations (size + distance) (state.shift distance) (shiftAll distance tokens) =
      (declarations size state tokens).shift distance := by
  have hbraced : ∀ state : State, (state.shift distance).isBraced = state.isBraced :=
    isBraced_redraw _ _
  -- one case for each way in which reading goes on or stops, in the order in which it is tried
  fun_induction declarations size state tokens with
  | case1 state hopen =>
      rw [shiftAll, List.map_nil, declarations, if_pos ((hbraced state).trans hopen)]
      rfl
  | case2 state hclosed =>
      rw [shiftAll, List.map_nil, declarations, if_neg (hbraced state ▸ hclosed),
        Outcome.shift, shiftBy, shift_close]
      rfl
  | case3 state token tokens hmark hopen ih =>
      rw [shiftAll, List.map_cons, declarations, dif_pos ((Token.isMark_shift ..).trans hmark),
        if_pos ((hbraced state).trans hopen), Token.stop_shift, ← shift_leave]
      exact ih
  | case4 state token tokens hmark hclosed =>
      rw [shiftAll, List.map_cons, declarations, dif_pos ((Token.isMark_shift ..).trans hmark),
        if_neg (hbraced state ▸ hclosed)]
      rfl
  | case5 state token tokens hmark halias hend =>
      have hmark' : ¬(token.shift distance).isMark '\x7d' = true := hmark
      have hend' := afterSemicolon_shift distance tokens
      rw [hend] at hend'
      rw [shiftAll, List.map_cons, declarations, dif_neg hmark',
        if_pos ((isExternAlias_shift ..).trans halias), hend']
      rfl
  | case6 state token tokens hmark halias rest hend ih =>
      have hmark' : ¬(token.shift distance).isMark '\x7d' = true := hmark
      have hend' := afterSemicolon_shift distance tokens
      rw [hend] at hend'
      rw [shiftAll, List.map_cons, declarations, dif_neg hmark',
        if_pos ((isExternAlias_shift ..).trans halias), hend']
      exact ih
  | case7 state token tokens hmark halias isGlobal body hopens error hbody =>
      rw [declarations_of_opens hmark halias hopens, directive_shift, hbody]
      rfl
  | case8 state token tokens hmark halias isGlobal body hopens found rest hbody ih =>
      rw [declarations_of_opens hmark halias hopens, directive_shift, hbody, ← ih,
        shift_addDirective]
      rfl
  | case9 state token tokens hmark halias hopens hnamespace error hheader =>
      rw [declarations_of_opens_none hmark halias hopens, if_pos hnamespace, hbraced, header_shift,
        hheader]
      rfl
  | case10 state token tokens hmark halias hopens hnamespace opened rest hheader ih =>
      rw [declarations_of_opens_none hmark halias hopens, if_pos hnamespace, hbraced, header_shift,
        hheader, ← ih, shift_enter]
      rfl
  | case11 state token tokens hmark halias hopens hnamespace hbracket error hgroup =>
      rw [declarations_of_opens_none hmark halias hopens, if_neg hnamespace, if_pos hbracket,
        afterGroup_shift, hgroup]
      rfl
  | case12 state token tokens hmark halias hopens hnamespace hbracket rest hgroup ih =>
      rw [declarations_of_opens_none hmark halias hopens, if_neg hnamespace, if_pos hbracket,
        afterGroup_shift, hgroup]
      exact ih
  | case13 state token tokens hmark halias hopens hnamespace hbracket error hmember =>
      rw [declarations_of_opens_none hmark halias hopens, if_neg hnamespace, if_neg hbracket,
        afterMember_shift, hmember]
      rfl
  | case14 state token tokens hmark halias hopens hnamespace hbracket rest hmember ih =>
      rw [declarations_of_opens_none hmark halias hopens, if_neg hnamespace, if_neg hbracket,
        afterMember_shift, hmember]
      exact ih

end Read

/-! ## A byte-order mark -/

def SyntaxFault.shift (distance : Nat) : SyntaxFault → SyntaxFault
  | .scan error => .scan (error.shift distance)
  | .tree error => .tree (error.shift distance)

namespace CSharp

variable {text : Text} {tree : Tree}

/-- The tree of a text, or its fault, `distance` bytes further on. -/
def shift (distance : Nat) : Except SyntaxFault Tree → Except SyntaxFault Tree
  | .ok tree => .ok (tree.shift distance)
  | .error fault => .error (fault.shift distance)

/-- A byte-order mark moves what a text declares, or its fault. -/
theorem read_byteOrderMark (h : text.head? ≠ some byteOrderMark) :
    read (byteOrderMark :: text) = ((read text).1, shift byteOrderMark.utf8Size (read text).2) := by
  rw [read, read, tokenize_byteOrderMark h]
  cases tokenize text with
  | error error => rfl
  | ok tokens =>
      have hcode : (tokens.map (Token.shift byteOrderMark.utf8Size)).filter (!·.kind.isTrivia) =
          Read.shiftAll byteOrderMark.utf8Size (tokens.filter (!·.kind.isTrivia)) := List.filter_map
      have hstart : Read.State.shift byteOrderMark.utf8Size {} = {} := by
        simp [Read.State.redraw, Read.Block.redraw, Namespace.redraw]
      have hread := Read.declarations_shift byteOrderMark.utf8Size text.size {}
        (tokens.filter (!·.kind.isTrivia))
      rw [Nat.add_comm, ← Text.size_cons, hstart] at hread
      simp only [Scan.shift]
      rw [hcode, hread, Read.Outcome.shift]
      cases (Read.declarations text.size {} (tokens.filter (!·.kind.isTrivia))).result <;> rfl

end CSharp

end CSharpTidy
