import CSharpTidy.Proofs.Token.Rendering
import CSharpTidy.Proofs.Tree.Document
import CSharpTidy.Proofs.Tree.Moved
import Mathlib.Data.List.TakeWhile

/-!
# Reading recovers what is declared

A forest of directives and namespaces, as someone declares it, is a list of words. However a text shows
these words, reading it gives the forest back: its directives, each in its scope, and its namespaces,
each in its place. The words are read at offset 0 first, where they can be written down. Tokens at
other offsets are read alike.
-/

namespace CSharpTidy

/-! ## Forests -/

/-- The words that declarations are read by. -/
def keywords : List Text :=
  ["global", "using", "static", "var", "extern", "namespace"].map String.toList

/-- A name of identifiers with dots between them, none of which is a keyword. -/
structure DottedName where
  first : Identifier
  others : List Identifier
  free : ∀ part ∈ first :: others, part.text ∉ keywords

namespace DottedName

def text (name : DottedName) : Text :=
  name.first.text ++ name.others.flatMap fun part => '.' :: part.text

def words (name : DottedName) : List Word :=
  .identifier name.first :: name.others.flatMap fun part => [.mark .dot, .identifier part]

end DottedName

/-- What stands behind `using`. -/
inductive ImportForm where
  | plain
  | static
  | aliased (name : DottedName)

/-- A directive as it is declared. -/
structure Import where
  isGlobal : Bool
  form : ImportForm
  target : DottedName

/-- A namespace in braces. -/
structure NamespaceBlock where
  name : DottedName
  imports : List Import
  blocks : List NamespaceBlock

/-- What stands in a file: directives, then namespaces in braces, and then maybe a file-scoped
namespace around directives and namespaces of its own. -/
structure Forest where
  imports : List Import
  blocks : List NamespaceBlock
  fileScoped : Option (DottedName × List Import × List NamespaceBlock)

namespace Word

def globalKeyword : Word := .identifier ⟨"global".toList, by decide, by decide⟩
def usingKeyword : Word := .identifier ⟨"using".toList, by decide, by decide⟩
def staticKeyword : Word := .identifier ⟨"static".toList, by decide, by decide⟩
def namespaceKeyword : Word := .identifier ⟨"namespace".toList, by decide, by decide⟩

end Word

namespace ImportForm

def words : ImportForm → List Word
  | plain => []
  | static => [.staticKeyword]
  | aliased name => name.words ++ [.mark .equals]

def kind : ImportForm → DirectiveKind
  | plain => .namespace
  | static => .static
  | aliased name => .alias name.text

end ImportForm

namespace Import

def keywords (declared : Import) : List Word :=
  if declared.isGlobal then [.globalKeyword, .usingKeyword] else [.usingKeyword]

def words (declared : Import) : List Word :=
  declared.keywords ++ (declared.form.words ++ declared.target.words ++ [Word.mark .semicolon])

def directive (declared : Import) : Directive :=
  ⟨⟨0, 0⟩, declared.target.text, ⟨0, 0⟩, declared.form.kind, declared.isGlobal⟩

end Import

namespace NamespaceBlock

def words : List NamespaceBlock → List Word
  | [] => []
  | ⟨name, imports, blocks⟩ :: rest =>
      (.namespaceKeyword :: name.words ++ .mark .opening :: imports.flatMap Import.words ++
        words blocks ++ [.mark .closing]) ++ words rest

def namespaces : List NamespaceBlock → List Namespace
  | [] => []
  | ⟨name, imports, blocks⟩ :: rest =>
      ⟨name.text, ⟨0, 0⟩, false, imports.map Import.directive, namespaces blocks⟩ :: namespaces rest

end NamespaceBlock

namespace Forest

def words (forest : Forest) : List Word :=
  forest.imports.flatMap Import.words ++ NamespaceBlock.words forest.blocks ++
    match forest.fileScoped with
    | none => []
    | some (name, imports, blocks) =>
        .namespaceKeyword :: name.words ++ .mark .semicolon :: imports.flatMap Import.words ++
          NamespaceBlock.words blocks

def tree (forest : Forest) : Tree :=
  ⟨⟨0, 0⟩, forest.imports.map Import.directive,
    NamespaceBlock.namespaces forest.blocks ++
      match forest.fileScoped with
      | none => []
      | some (name, imports, blocks) =>
          [⟨name.text, ⟨0, 0⟩, true, imports.map Import.directive,
            NamespaceBlock.namespaces blocks⟩]⟩

end Forest

/-! ## Words as tokens -/

namespace Word

def token (word : Word) : Token := ⟨word.kind, word.lexeme, 0⟩

variable {name : Identifier} {sign : Mark} {c : Char} {word : String}

@[simp] theorem isMark_identifier : (identifier name).token.isMark c = false := rfl

@[simp] theorem isWord_mark : (mark sign).token.isWord word = false := rfl

theorem isMark_mark : (mark sign).token.isMark c = (sign.char == c) := by
  rw [Bool.eq_iff_iff, Token.isMark_iff, beq_iff_eq]
  exact TokenKind.punctuation.injEq _ _ ▸ Iff.rfl

theorem isWord_identifier : (identifier name).token.isWord word = (name.text == word.toList) := rfl

theorem joined_token (words : List Word) :
    Read.joined (words.map token) = words.flatMap lexeme := by
  rw [Read.joined, List.map_map]
  rfl

end Word

namespace DottedName

variable {name : DottedName} {word : Word} {c : Char}

theorem flatMap_lexeme (name : DottedName) : name.words.flatMap Word.lexeme = name.text := by
  rw [words, List.flatMap_cons, List.flatMap_assoc, text]
  simp [Word.lexeme, Mark.char]

theorem eq_of_mem_words (h : word ∈ name.words) :
    word.isIdentifier = true ∨ word = .mark .dot := by
  rcases List.mem_cons.mp h with rfl | h
  · exact .inl rfl
  · obtain ⟨part, -, hmem⟩ := List.mem_flatMap.mp h
    rcases List.mem_cons.mp hmem with rfl | hmem
    · exact .inr rfl
    · rw [List.mem_singleton.mp hmem]
      exact .inl rfl

theorem isMark_of_mem_words (h : word ∈ name.words) (hc : c ≠ '.') : word.token.isMark c = false := by
  rcases eq_of_mem_words h with hidentifier | rfl
  · cases word with
    | identifier => rfl
    | mark => cases hidentifier
  · rw [Word.isMark_mark, beq_eq_false_iff_ne]
    exact fun heq => hc heq.symm

/-- A name does not begin with a keyword. -/
theorem isWord_first {keyword : String} (name : DottedName) (h : keyword.toList ∈ keywords) :
    (Word.identifier name.first).token.isWord keyword = false := by
  rw [Word.isWord_identifier, beq_eq_false_iff_ne]
  intro heq
  exact name.free name.first List.mem_cons_self (heq ▸ h)

end DottedName

namespace Read

variable {size start stop : Nat} {isGlobal isStatic nested : Bool} {parts : List Token}
  {first equals : Token} {others target : List Token} {kind : DirectiveKind} {name : List Token}

/-! ## Directives -/

theorem directiveName_of_forall (h : ∀ token ∈ others, token.isMark '=' = false) :
    directiveName isStatic (first :: others) =
      (if isStatic then .static else .namespace, first :: others) := by
  have htake : (others.takeWhile fun token => !token.isMark '=') = others :=
    List.takeWhile_eq_self_iff.mpr fun token hmem => by rw [h token hmem]; rfl
  simp only [directiveName, htake, List.drop_length]

theorem directiveName_alias (h : ∀ token ∈ others, token.isMark '=' = false)
    (hequals : equals.isMark '=' = true) (target : List Token) :
    directiveName isStatic (first :: (others ++ equals :: target)) =
      (.alias (joined (first :: others)), target) := by
  have htake : ((others ++ equals :: target).takeWhile fun token => !token.isMark '=') = others := by
    rw [List.takeWhile_append_of_pos fun token hmem => by rw [h token hmem]; rfl]
    simp [hequals]
  simp only [directiveName, htake, List.drop_left]

theorem dropWord_of_isWord {word : String} (h : first.isWord word = true) :
    dropWord word (first :: others) = (true, others) := if_pos h

theorem dropWord_of_not_isWord {word : String} (h : first.isWord word = false) :
    dropWord word (first :: others) = (false, first :: others) := if_neg (by simp [h])

theorem exists_name_tokens (name : DottedName) :
    ∃ first others, name.words.map Word.token = first :: others ∧
      (∀ token ∈ first :: others, ∀ mark ≠ '.', token.isMark mark = false) ∧
        (∀ keyword : String, keyword.toList ∈ keywords → first.isWord keyword = false) ∧
          joined (first :: others) = name.text := by
  refine ⟨_, _, rfl, fun token hmem mark hmark => ?_, fun keyword => name.isWord_first, ?_⟩
  · obtain ⟨word, hword, rfl⟩ := List.mem_map.mp (show token ∈ name.words.map Word.token from hmem)
    exact DottedName.isMark_of_mem_words hword hmark
  · exact (Word.joined_token name.words).trans name.flatMap_lexeme

theorem endsDirective_of_isMark (h : ∀ mark ≠ '.', first.isMark mark = false) :
    endsDirective first = false := by
  rw [endsDirective, h _ (by decide), h _ (by decide), h _ (by decide)]
  rfl

/-- The tokens between `using` and the semicolon, as they are read: what is left behind `static`, and
in it the name. -/
theorem exists_parts (form : ImportForm) (target : DottedName) :
    ∃ isStatic parts name,
      (∀ close : Token, dropWord "static" ((form.words ++ target.words).map Word.token ++ [close]) =
        (isStatic, parts ++ [close])) ∧
      (∀ token ∈ parts, endsDirective token = false) ∧
      directiveName isStatic parts = (form.kind, name) ∧ name ≠ [] ∧ joined name = target.text := by
  obtain ⟨first, others, htokens, hmarks, hkeywords, htext⟩ := exists_name_tokens target
  have hends : ∀ token ∈ first :: others, endsDirective token = false := fun token hmem =>
    endsDirective_of_isMark (hmarks token hmem)
  have hequals : ∀ token ∈ others, token.isMark '=' = false := fun token hmem =>
    hmarks token (List.mem_cons_of_mem first hmem) '=' (by decide)
  rw [List.map_append, htokens]
  cases form with
  | plain =>
      exact ⟨false, first :: others, first :: others,
        fun close => dropWord_of_not_isWord (hkeywords "static" (by decide)), hends,
        directiveName_of_forall hequals, List.cons_ne_nil _ _, htext⟩
  | static =>
      exact ⟨true, first :: others, first :: others, fun close => dropWord_of_isWord rfl, hends,
        directiveName_of_forall hequals, List.cons_ne_nil _ _, htext⟩
  | aliased name =>
      obtain ⟨head, tail, halias, hmarks', hnoKeyword, htext'⟩ := exists_name_tokens name
      have hequals' : ∀ token ∈ tail, token.isMark '=' = false := fun token hmem =>
        hmarks' token (List.mem_cons_of_mem head hmem) '=' (by decide)
      have hwords : (ImportForm.words (.aliased name)).map Word.token ++ (first :: others) =
          head :: (tail ++ (Word.mark .equals).token :: (first :: others)) := by
        rw [ImportForm.words, List.map_append, halias]
        simp
      have hequals : (Word.mark .equals).token.isMark '=' = true := rfl
      -- the first `=` behind a name parts it from the target
      have hname : directiveName false (head :: (tail ++ (Word.mark .equals).token ::
          (first :: others))) = (.alias name.text, first :: others) := by
        rw [directiveName_alias hequals' hequals, htext']
      rw [hwords]
      refine ⟨false, head :: (tail ++ (Word.mark .equals).token :: (first :: others)), first :: others,
        fun close => dropWord_of_not_isWord (hnoKeyword "static" (by decide)), ?_,
        hname, List.cons_ne_nil _ _, htext⟩
      intro token hmem
      rw [← List.cons_append] at hmem
      rcases List.mem_append.mp hmem with hmem | hmem
      · exact endsDirective_of_isMark (hmarks' token hmem)
      · rcases List.mem_cons.mp hmem with rfl | hmem
        · rfl
        · exact hends token hmem

theorem exists_directive (form : ImportForm) (target : DottedName) (isGlobal : Bool) :
    ∃ found,
      directive 0 0 isGlobal
        ((form.words ++ target.words ++ [Word.mark .semicolon]).map Word.token) = .ok (found, []) ∧
      Directive.unplaced [found] = [⟨⟨0, 0⟩, target.text, ⟨0, 0⟩, form.kind, isGlobal⟩] := by
  obtain ⟨isStatic, parts, name, hdrop, hparts, hname, hne, htext⟩ := exists_parts form target
  have hclose : (Word.mark .semicolon).token.isMark ';' = true := rfl
  obtain ⟨nameSpan, hfound⟩ :=
    exists_directiveOf? hname hne 0 (Word.mark .semicolon).token.stop isGlobal
  refine ⟨⟨⟨0, (Word.mark .semicolon).token.stop⟩, joined name, nameSpan, form.kind, isGlobal⟩, ?_,
    htext ▸ rfl⟩
  have hwords : (form.words ++ target.words ++ [Word.mark .semicolon]).map Word.token =
      (form.words ++ target.words).map Word.token ++ [(Word.mark .semicolon).token] :=
    List.map_append
  rw [hwords, directive_eq_ok_iff, hdrop]
  exact ⟨parts, _, rfl, hparts, hclose, hfound⟩

theorem not_statement (form : ImportForm) (target : DottedName) :
    ∀ next ∈ ((form.words ++ target.words ++ [Word.mark .semicolon]).map Word.token).head?,
      next.isMark '(' = false ∧ next.isWord "var" = false := by
  intro next hmem
  obtain ⟨first, others, htokens, hmarks, hkeywords, -⟩ := exists_name_tokens target
  rw [List.map_append, List.map_append, htokens] at hmem
  cases form with
  | plain =>
      obtain rfl := Option.some.inj hmem
      exact ⟨hmarks _ List.mem_cons_self _ (by decide), hkeywords "var" (by decide)⟩
  | static =>
      obtain rfl := Option.some.inj hmem
      exact ⟨rfl, by decide⟩
  | aliased name =>
      obtain ⟨head, tail, halias, hmarks', hnoKeyword, -⟩ := exists_name_tokens name
      rw [ImportForm.words, List.map_append, halias] at hmem
      obtain rfl := Option.some.inj hmem
      exact ⟨hmarks' _ List.mem_cons_self _ (by decide), hnoKeyword "var" (by decide)⟩

theorem exists_segment_of_import (declared : Import) :
    ∃ found, (∀ nested rest, Segment nested rest (declared.words.map Word.token) (.directive found)) ∧
      Directive.unplaced [found] = [declared.directive] := by
  obtain ⟨isGlobal, form, target⟩ := declared
  obtain ⟨found, hfound, hunplaced⟩ := exists_directive form target isGlobal
  refine ⟨found, fun nested rest => ?_, hunplaced⟩
  generalize hbody : (form.words ++ target.words ++ [Word.mark .semicolon]).map Word.token = body at hfound
  have hne : body ≠ [] := by
    rw [← hbody]
    simp
  have hnext : ∀ next ∈ body.head?, next.isMark '(' = false ∧ next.isWord "var" = false :=
    hbody ▸ not_statement form target
  have husing : Word.usingKeyword.token.isWord "using" = true := by decide
  have hwords : (Import.words ⟨isGlobal, form, target⟩).map Word.token =
      (Import.keywords ⟨isGlobal, form, target⟩).map Word.token ++ body := by
    rw [Import.words, List.map_append, hbody]
  rw [hwords]
  cases isGlobal with
  | false =>
      exact .directive (opensDirective?_eq_some_iff.mpr
        ⟨[], Word.usingKeyword.token, rfl, .inl ⟨rfl, rfl⟩, husing, hnext⟩) hne hfound
  | true =>
      have hglobal : Word.globalKeyword.token.isWord "global" = true := by decide
      exact .directive (opensDirective?_eq_some_iff.mpr ⟨[Word.globalKeyword.token],
        Word.usingKeyword.token, rfl, .inr ⟨rfl, _, rfl, hglobal⟩, husing, hnext⟩) hne hfound

/-! ## Namespaces -/

theorem isNamePart_token {word : Word} (h : word.isIdentifier = true ∨ word = .mark .dot) :
    isNamePart word.token = true := by
  rcases h with hidentifier | rfl
  · cases word with
    | identifier name => rfl
    | mark sign => cases hidentifier
  · rfl

theorem header_name {fileScoped : Bool} {close : Token} (name : DottedName)
    (hends : EndsHeader nested fileScoped close) :
    header size start nested [] (name.words.map Word.token ++ [close]) =
      .ok (⟨start, name.text, fileScoped⟩, []) := by
  refine header_eq_ok_iff.mpr ⟨name.words.map Word.token, close, rfl, ?_, hends, ?_⟩
  · exact List.forall_mem_map.mpr fun word hmem => isNamePart_token (DottedName.eq_of_mem_words hmem)
  · have hname : joined (name.words.map Word.token) = name.words.flatMap Word.lexeme := by
      rw [joined, List.map_map]
      rfl
    rw [hname, name.flatMap_lexeme, List.nil_append]

/-- Reading tokens leads from one state to another, whatever follows. -/
def Leads (state : State) (tokens : List Token) (state' : State) : Prop :=
  ∀ rest last, Parse state' rest last → Parse state (tokens ++ rest) last

theorem Leads.refl (state : State) : Leads state [] state := fun _ _ h => h

theorem Leads.append {state state' state'' : State} {tokens tokens' : List Token}
    (h : Leads state tokens state') (h' : Leads state' tokens' state'') :
    Leads state (tokens ++ tokens') state'' := fun rest last hparse => by
  rw [List.append_assoc]
  exact h _ last (h' rest last hparse)

theorem leads_of_segment {state : State} {segment : List Token} {role : Role}
    (h : ∀ rest, Segment state.isBraced rest segment role) :
    Leads state segment (role.act state) := fun rest _ hparse => .step (h rest) hparse

def State.addDirectives (state : State) (directives : List Directive) : State :=
  { state with block := { state.block with directives := state.block.directives ++ directives } }

def State.addNamespaces (state : State) (declarations : List Namespace) : State :=
  { state with
    block := { state.block with
      namespaces := state.block.namespaces ++ declarations
      begun := state.block.begun || !declarations.isEmpty } }

namespace State

variable {state : State}

theorem addDirectives_nil (state : State) : state.addDirectives [] = state := by
  simp [addDirectives]

theorem addDirectives_cons (state : State) (directive : Directive) (directives : List Directive) :
    (state.addDirectives [directive]).addDirectives directives =
      state.addDirectives (directive :: directives) := by
  simp [addDirectives]

theorem addDirective_eq (h : state.block.begun = false) (directive : Directive) :
    state.addDirective directive = state.addDirectives [directive] := by
  simp [addDirective, addDirectives, h]

theorem addNamespaces_nil (state : State) : state.addNamespaces [] = state := by
  simp [addNamespaces]

theorem addNamespaces_cons (state : State) (declaration : Namespace)
    (declarations : List Namespace) :
    (state.addNamespaces [declaration]).addNamespaces declarations =
      state.addNamespaces (declaration :: declarations) := by
  simp [addNamespaces]

/-- What was read inside a namespace stands in it once it is left. -/
theorem leave_enter (state : State) (opened : Header) (found : List Directive)
    (declarations : List Namespace) (stop : Nat) :
    (((state.enter opened).addDirectives found).addNamespaces declarations).leave stop =
      state.addNamespaces
        [⟨opened.name, ⟨opened.start, stop⟩, opened.fileScoped, found, declarations⟩] := by
  simp [enter, addDirectives, addNamespaces, leave, addNamespace]

end State

/-- Directives in front of everything else all go to the block they stand in. -/
theorem exists_imports (imports : List Import) {state : State} (hbegun : state.block.begun = false) :
    ∃ found, Directive.unplaced found = imports.map Import.directive ∧
      Leads state ((imports.flatMap Import.words).map Word.token) (state.addDirectives found) := by
  induction imports generalizing state with
  | nil => exact ⟨[], rfl, by rw [State.addDirectives_nil]; exact .refl state⟩
  | cons declared imports ih =>
      obtain ⟨first, hsegment, hfirst⟩ := exists_segment_of_import declared
      have hstep : Leads state (declared.words.map Word.token) (state.addDirectives [first]) := by
        rw [← State.addDirective_eq hbegun]
        exact leads_of_segment (hsegment state.isBraced)
      have hbegun' : (state.addDirectives [first]).block.begun = false := hbegun
      obtain ⟨found, hfound, hrest⟩ := ih hbegun'
      refine ⟨first :: found, ?_, ?_⟩
      · change Directive.unplaced ([first] ++ found) = _
        rw [unplaced_append, hfirst, hfound]
        rfl
      · rw [State.addDirectives_cons] at hrest
        rw [List.flatMap_cons, List.map_append]
        exact hstep.append hrest

/-- Reading adds namespaces where they are declared. -/
def Recovers (blocks : List NamespaceBlock) : Prop :=
  ∀ state : State, ∃ declarations,
    Namespace.redraw Directive.unplaced (fun _ => 0) declarations = NamespaceBlock.namespaces blocks ∧
      Leads state ((NamespaceBlock.words blocks).map Word.token) (state.addNamespaces declarations)

/-- Directives and the namespaces behind them, in a block that nothing has been read of. -/
theorem exists_block {blocks : List NamespaceBlock} (hblocks : Recovers blocks)
    (imports : List Import) {state : State} (hbegun : state.block.begun = false) :
    ∃ found declarations, Directive.unplaced found = imports.map Import.directive ∧
      Namespace.redraw Directive.unplaced (fun _ => 0) declarations =
          NamespaceBlock.namespaces blocks ∧
        Leads state ((imports.flatMap Import.words ++ NamespaceBlock.words blocks).map Word.token)
          ((state.addDirectives found).addNamespaces declarations) := by
  obtain ⟨found, hfound, himports⟩ := exists_imports imports hbegun
  obtain ⟨declarations, hdeclarations, hinner⟩ := hblocks (state.addDirectives found)
  refine ⟨found, declarations, hfound, hdeclarations, ?_⟩
  rw [List.map_append]
  exact himports.append hinner

/-- Namespaces in braces are recovered, those inside them first. -/
theorem recovers (blocks : List NamespaceBlock) : Recovers blocks := by
  intro state
  match blocks with
  | [] =>
      refine ⟨[], by rw [Namespace.redraw, NamespaceBlock.namespaces], ?_⟩
      rw [NamespaceBlock.words, State.addNamespaces_nil]
      exact .refl state
  | ⟨name, imports, inner⟩ :: rest =>
      -- header, inside, closing brace and the namespaces behind, one after another
      have hheader : header 0 0 state.isBraced [] (name.words.map Word.token ++
          [(Word.mark .opening).token]) = .ok (⟨0, name.text, false⟩, []) :=
        header_name name (.brace rfl)
      have henter : Leads state (Word.namespaceKeyword.token ::
          (name.words.map Word.token ++ [(Word.mark .opening).token]))
            (state.enter ⟨0, name.text, false⟩) :=
        leads_of_segment fun _ => .enter (by decide) hheader
      have hbegun : (state.enter ⟨0, name.text, false⟩).block.begun = false := rfl
      obtain ⟨found, declarations, hfound, hdeclarations, hinside⟩ :=
        exists_block (recovers inner) imports hbegun
      have hleave : Leads
          (((state.enter ⟨0, name.text, false⟩).addDirectives found).addNamespaces declarations)
          [(Word.mark .closing).token]
          (state.addNamespaces [⟨name.text, ⟨0, (Word.mark .closing).token.stop⟩, false, found,
            declarations⟩]) := by
        have hclosing : (Word.mark .closing).token.isMark '\x7d' = true := rfl
        rw [← State.leave_enter state ⟨0, name.text, false⟩]
        exact leads_of_segment fun _ => .leave hclosing rfl
      obtain ⟨others, hothers, hrest⟩ := recovers rest
        (state.addNamespaces [⟨name.text, ⟨0, (Word.mark .closing).token.stop⟩, false, found,
          declarations⟩])
      rw [State.addNamespaces_cons] at hrest
      refine ⟨⟨name.text, ⟨0, (Word.mark .closing).token.stop⟩, false, found, declarations⟩ :: others,
        ?_, ?_⟩
      · rw [Namespace.redraw, NamespaceBlock.namespaces, hfound, hdeclarations, hothers]
      · have hall := ((henter.append hinside).append hleave).append hrest
        rw [NamespaceBlock.words]
        simpa only [List.map_append, List.map_cons, List.map_nil, List.append_assoc, List.cons_append,
          List.nil_append] using hall

/-! ## Files -/

theorem exists_parse_of_forest (forest : Forest) :
    ∃ last, Parse {} (forest.words.map Word.token) last ∧ last.late = [] ∧
      ∀ size, (State.close size last.block last.outer).unplaced = forest.tree := by
  obtain ⟨imports, blocks, fileScoped⟩ := forest
  have hbegun : ({} : State).block.begun = false := rfl
  obtain ⟨found, declarations, hfound, hdeclarations, hblock⟩ :=
    exists_block (recovers blocks) imports hbegun
  cases fileScoped with
  | none =>
      refine ⟨(({} : State).addDirectives found).addNamespaces declarations, ?_, rfl, fun size => ?_⟩
      · have hparse := hblock [] _ (.done rfl)
        rw [List.append_nil] at hparse
        rw [Forest.words, List.append_nil]
        exact hparse
      · simp [State.close, State.addDirectives, State.addNamespaces, Tree.unplaced, Tree.redraw,
          Forest.tree, hfound, hdeclarations]
  | some body =>
      -- the file-scoped namespace stays open to the end of the file
      obtain ⟨name, inner, namespaces⟩ := body
      have hheader : header 0 0 false [] (name.words.map Word.token ++
          [(Word.mark .semicolon).token]) = .ok (⟨0, name.text, true⟩, []) :=
        header_name name (.semicolon rfl rfl)
      have henter := leads_of_segment
        (fun rest => (.enter (by decide) hheader : Segment (State.isBraced
          ((({} : State).addDirectives found).addNamespaces declarations)) rest
            (Word.namespaceKeyword.token :: (name.words.map Word.token ++
              [(Word.mark .semicolon).token])) (.enter ⟨0, name.text, true⟩)))
      obtain ⟨found', declarations', hfound', hdeclarations', hinside⟩ :=
        exists_block (recovers namespaces) inner (rfl : (State.enter
          ((({} : State).addDirectives found).addNamespaces declarations)
            ⟨0, name.text, true⟩).block.begun = false)
      refine ⟨(((State.enter ((({} : State).addDirectives found).addNamespaces declarations)
        ⟨0, name.text, true⟩).addDirectives found').addNamespaces declarations'), ?_, rfl,
        fun size => ?_⟩
      · have hparse := ((hblock.append henter).append hinside) [] _ (.done rfl)
        rw [Forest.words]
        simpa only [List.map_append, List.map_cons, List.map_nil, List.append_assoc, List.cons_append,
          List.nil_append, List.append_nil] using hparse
      · simp [State.close, State.enter, State.addNamespace, State.addDirectives, State.addNamespaces,
          Tree.unplaced, Tree.redraw, Namespace.redraw_append, Namespace.redraw, Forest.tree, hfound,
          hdeclarations, hfound', hdeclarations']

end Read

def Token.SameWord (token token' : Token) : Prop :=
  token.kind = token'.kind ∧ token.lexeme = token'.lexeme

/-- **Reading recovers what is declared.** However a text shows the words of a forest, with blanks,
comments and preprocessor lines wherever they may stand, the reader gives the tree of the forest and no
notice. -/
theorem CSharp.reader_recovers {forest : Forest} {text : Text}
    (h : Renders true false forest.words text) (path : Path) :
    ∃ tree, CSharp.reader path text = ⟨some tree, []⟩ ∧ tree.unplaced = forest.tree := by
  obtain ⟨tokens, htokens, hwords⟩ := h.exists_tokens
  obtain ⟨last, hparse, hlate, hclose⟩ := Read.exists_parse_of_forest forest
  have hsame : List.Forall₂ Token.SameWord (forest.words.map Word.token) (Token.code tokens) := by
    have heq : List.Forall₂ Eq (forest.words.map fun word => (word.kind, word.lexeme))
        ((Token.code tokens).map fun token => (token.kind, token.lexeme)) := by
      rw [hwords]
      exact List.forall₂_refl _
    rw [List.forall₂_map_left_iff, List.forall₂_map_right_iff] at heq
    rw [List.forall₂_map_left_iff]
    exact heq.imp fun _ _ hpair => Prod.mk.inj hpair
  obtain ⟨last', hparse', hmoved⟩ :=
    hparse.moved (fun _ _ hsame => hsame) hsame Read.State.moved_empty
  obtain ⟨hlate', htree, -⟩ := hmoved.close 0 text.size
  have hread := CSharp.read_eq_ok_iff.mpr ⟨tokens, last', htokens, hparse', rfl, rfl⟩
  refine ⟨_, ?_, htree.symm.trans (hclose 0)⟩
  rw [CSharp.reader, hread, ← hlate', hlate]
  rfl

/-- A comment stands in front of a semicolon, and a preprocessor line in front of a namespace. -/
theorem CSharp.reader_recovers_of_comment :
    ∃ forest tree,
      Renders true false (Forest.words forest)
        "using A/* b */;\n#if C\nnamespace D\x7b\x7d".toList ∧
      forest.imports.map Import.directive = [⟨⟨0, 0⟩, ['A'], ⟨0, 0⟩, .namespace, false⟩] ∧
      CSharp.reader ⟨"a.cs"⟩ "using A/* b */;\n#if C\nnamespace D\x7b\x7d".toList =
        ⟨some tree, []⟩ ∧
      tree.unplaced = forest.tree := by
  have hshown : Renders true false
      [.usingKeyword, .identifier ⟨['A'], by decide, by decide⟩, .mark .semicolon, .namespaceKeyword,
        .identifier ⟨['D'], by decide, by decide⟩, .mark .opening, .mark .closing]
      ("using".toList ++ ' ' :: (['A'] ++ '/' :: '*' :: (" b ".toList ++ '*' :: '/' ::
        ([';'] ++ '\n' :: '#' :: ("if C".toList ++ '\n' :: ("namespace".toList ++ ' ' ::
          (['D'] ++ (['\x7b'] ++ (['\x7d'] ++ []))))))))) :=
    .word (by decide) (.blank (by decide) (.word (by decide) (.blockComment
      (fun hstar => absurd (hstar.subset List.mem_cons_self) (by decide))
      (.word (by decide) (.blank (by decide) (.preprocessor (by decide) (by rintro c ⟨⟩; rfl)
        (.blank (by decide) (.word (by decide) (.blank (by decide) (.word (by decide)
          (.word (by decide) (.word (by decide) .nil))))))))))))
  have hforest : Renders true false
      (Forest.words ⟨[⟨false, .plain, ⟨⟨['A'], by decide, by decide⟩, [], by decide⟩⟩],
        [⟨⟨⟨['D'], by decide, by decide⟩, [], by decide⟩, [], []⟩], none⟩)
      "using A/* b */;\n#if C\nnamespace D\x7b\x7d".toList := by
    rw [Forest.words, NamespaceBlock.words, NamespaceBlock.words]
    exact hshown
  obtain ⟨tree, htree, hunplaced⟩ := CSharp.reader_recovers hforest ⟨"a.cs"⟩
  exact ⟨_, tree, hforest, rfl, htree, hunplaced⟩

end CSharpTidy
