import CSharpTidy.Proofs.Token.Tiling
import CSharpTidy.Proofs.Tree.Document

/-!
# Trees are well nested

Slicing the text by the spans of a tree, and what lies between two directives by the ends of theirs,
is only right where spans stand in order and inside each other. Reading keeps that of the blocks it
has open: each has been read up to some offset, and the block around it up to the header of the
namespace that leads inwards.
-/

namespace CSharpTidy

/-- A directive whose spans hold what it says. -/
structure Directive.Placed (text : Text) (tokens : List Token) (directive : Directive) : Prop where
  cuts : directive.span.Cuts text
  opens : (if directive.isGlobal then "global" else "using").toList <+: directive.span.slice text
  closes : [';'] <:+ directive.span.slice text
  nameCuts : directive.nameSpan.Cuts text
  nameInside : directive.span.containsSpan directive.nameSpan = true
  name_ne : directive.name ≠ []
  name_eq : directive.name = Read.joined
    ((Token.code tokens).filter fun token => directive.nameSpan.containsSpan token.span)

/-- Declarations in order and apart inside a span, the directives in front of the namespaces. -/
structure Span.Nests (span : Span) (directives : List Directive) (namespaces : List Namespace) :
    Prop where
  directivesInside : ∀ directive ∈ directives, span.containsSpan directive.span = true
  directivesApart : directives.Pairwise fun first second => first.span.stop ≤ second.span.start
  between : ∀ directive ∈ directives, ∀ declaration ∈ namespaces,
    directive.span.stop ≤ declaration.span.start
  namespacesInside : ∀ declaration ∈ namespaces, span.containsSpan declaration.span = true
  namespacesApart : namespaces.Pairwise fun first second => first.span.stop ≤ second.span.start

/-- A namespace from its keyword to its brace, or to the end of the text, around what it holds. -/
structure Namespace.Placed (text : Text) (tokens : List Token) (declaration : Namespace) :
    Prop where
  cuts : declaration.span.Cuts text
  opens : "namespace".toList <+: declaration.span.slice text
  closes : declaration.fileScoped = false → ['\x7d'] <:+ declaration.span.slice text
  runs : declaration.fileScoped = true → declaration.span.stop = text.size
  placed : ∀ directive ∈ declaration.directives, directive.Placed text tokens
  nests : declaration.span.Nests declaration.directives declaration.namespaces

def Namespace.everywhere : List Namespace → List Namespace
  | [] => []
  | ⟨name, span, fileScoped, directives, namespaces⟩ :: rest =>
      ⟨name, span, fileScoped, directives, namespaces⟩ :: everywhere namespaces ++ everywhere rest

/-- A tree whose spans are well nested over its text. -/
structure Tree.Nested (text : Text) (tokens : List Token) (tree : Tree) : Prop where
  span : tree.span = ⟨0, text.size⟩
  cuts : tree.span.Cuts text
  placed : ∀ directive ∈ tree.directives, directive.Placed text tokens
  nests : tree.span.Nests tree.directives tree.namespaces
  namespaces : ∀ declaration ∈ Namespace.everywhere tree.namespaces, declaration.Placed text tokens

theorem Namespace.everywhere_append (first second : List Namespace) :
    everywhere (first ++ second) = everywhere first ++ everywhere second := by
  induction first with
  | nil => rw [everywhere, List.nil_append, List.nil_append]
  | cons declaration first ih =>
      cases declaration
      rw [List.cons_append, everywhere, everywhere, ih, List.append_assoc]

/-! ## Spans between tokens -/

namespace Token

variable {text : Text} {tokens front name back : List Token} {first last token : Token} {stop : Nat}

theorem Tile.cuts (h : Tile text tokens) (hfirst : first ∈ tokens) (hlast : last ∈ tokens)
    (hle : first.start ≤ last.stop) : Span.Cuts text ⟨first.start, last.stop⟩ :=
  ⟨hle, h.inside last hlast, (h.boundary first hfirst).1, (h.boundary last hlast).2⟩

theorem Tile.lexeme_prefix (h : Tile text tokens) (hfirst : first ∈ tokens)
    (hle : first.stop ≤ stop) : first.lexeme <+: Span.slice ⟨first.start, stop⟩ text := by
  have hpos := h.nonempty first hfirst
  obtain ⟨hstart, hstop⟩ := h.boundary first hfirst
  rw [← h.slice first hfirst]
  exact ⟨_, Text.slice_append_slice hstart hstop (Nat.le_of_lt hpos) hle⟩

theorem Tile.lexeme_suffix (h : Tile text tokens) (hfirst : first ∈ tokens) (hlast : last ∈ tokens)
    (hle : first.start ≤ last.start) :
    last.lexeme <:+ Span.slice ⟨first.start, last.stop⟩ text := by
  have hpos := h.nonempty last hlast
  rw [← h.slice last hlast]
  exact ⟨_, Text.slice_append_slice (h.boundary first hfirst).1 (h.boundary last hlast).1 hle
    (Nat.le_of_lt hpos)⟩

theorem between_of_pairwise (hpairwise : name.Pairwise fun first second => first.stop ≤ second.start)
    (hpos : ∀ token ∈ name, token.start < token.stop) (hfirst : first ∈ name.head?)
    (hlast : last ∈ name.getLast?) (hmem : token ∈ name) :
    first.start ≤ token.start ∧ token.stop ≤ last.stop := by
  obtain ⟨others, rfl⟩ := List.head?_eq_some_iff.mp hfirst
  obtain ⟨others', heq⟩ := List.getLast?_eq_some_iff.mp hlast
  constructor
  · rcases List.mem_cons.mp hmem with rfl | hmem
    · exact Nat.le_refl _
    · have hapart := (List.pairwise_cons.mp hpairwise).1 token hmem
      have := hpos first List.mem_cons_self
      omega
  · rw [heq] at hmem hpairwise hpos
    rcases List.mem_append.mp hmem with hmem | hmem
    · have hapart := (List.pairwise_append.mp hpairwise).2.2 token hmem last List.mem_cons_self
      have := hpos last (by simp)
      omega
    · exact Nat.le_of_eq (congrArg stop (List.mem_singleton.mp hmem))

theorem filter_containsSpan
    (hpairwise : (front ++ (name ++ back)).Pairwise fun first second => first.stop ≤ second.start)
    (hpos : ∀ token ∈ front ++ (name ++ back), token.start < token.stop)
    (hfirst : first ∈ name.head?) (hlast : last ∈ name.getLast?) :
    ((front ++ (name ++ back)).filter fun token =>
      Span.containsSpan ⟨first.start, last.stop⟩ token.span) = name := by
  obtain ⟨-, hrest, hfront⟩ := List.pairwise_append.mp hpairwise
  obtain ⟨hname, -, hback⟩ := List.pairwise_append.mp hrest
  have hmem := List.mem_of_mem_head? hfirst
  have hmem' := List.mem_of_mem_getLast? hlast
  have hdrop : (front.filter fun token =>
      Span.containsSpan ⟨first.start, last.stop⟩ token.span) = [] := by
    refine List.filter_eq_nil_iff.mpr fun token htoken hinside => ?_
    have hapart := hfront token htoken first (List.mem_append_left _ hmem)
    have := hpos token (List.mem_append_left _ htoken)
    have hle := (Span.containsSpan_iff.mp hinside).1
    simp only [span] at hle
    omega
  have hdrop' : (back.filter fun token =>
      Span.containsSpan ⟨first.start, last.stop⟩ token.span) = [] := by
    refine List.filter_eq_nil_iff.mpr fun token htoken hinside => ?_
    have hapart := hback last hmem' token htoken
    have := hpos token (List.mem_append_right _ (List.mem_append_right _ htoken))
    have hle := (Span.containsSpan_iff.mp hinside).2
    simp only [span] at hle
    omega
  have hkeep : (name.filter fun token =>
      Span.containsSpan ⟨first.start, last.stop⟩ token.span) = name := by
    refine List.filter_eq_self.mpr fun token htoken => Span.containsSpan_iff.mpr ?_
    exact between_of_pairwise hname
      (fun token hmem => hpos token (List.mem_append_right _ (List.mem_append_left _ hmem)))
      hfirst hlast htoken
  rw [List.filter_append, List.filter_append, hdrop, hdrop', hkeep, List.nil_append,
    List.append_nil]

end Token

theorem Piece.lexeme_eq_of_mem {pieces : List Piece} {rest : Text} {lineStart : Bool} {offset : Nat}
    {token : Token} {mark : Char} (h : Scanned rest lineStart pieces)
    (hmem : token ∈ locate offset pieces) (hmark : token.isMark mark = true) :
    token.lexeme = [mark] := by
  induction pieces generalizing lineStart offset with
  | nil => cases hmem
  | cons piece pieces ih =>
      cases piece with
      | blank c => exact ih h.2 hmem
      | token kind lexeme =>
          rcases List.mem_cons.mp hmem with rfl | hmem
          · obtain rfl := Token.isMark_iff.mp hmark
            exact h.1.lexeme_eq
          · exact ih h.2 hmem

/-- The tokens that a text is read from: they tile it, and marks are spelled by themselves. -/
structure Token.Source (text : Text) (tokens : List Token) : Prop where
  tile : Token.Tile text tokens
  marks : ∀ token ∈ tokens, ∀ mark, token.isMark mark = true → token.lexeme = [mark]

theorem source_of_tokenize {text : Text} {tokens : List Token} (h : tokenize text = .ok tokens) :
    Token.Source text tokens := by
  obtain ⟨mark, pieces, hcut, rfl⟩ := exists_cut_of_tokenize h
  exact ⟨hcut.tile, fun token hmem mark => Piece.lexeme_eq_of_mem hcut.scanned hmem⟩

namespace Read

variable {text : Text} {tokens taken segment rest : List Token} {found : Directive} {nested : Bool}
  {isStatic : Bool} {parts name : List Token} {kind : DirectiveKind} {token : Token}
  {cursor stop lo : Nat} {block inner : Block} {outer : List (Header × Block)} {opened : Header}
  {role : Role} {state last : State}

/-! ## Directives -/

/-- The name of a directive comes last of what stands between its keywords and its semicolon. -/
theorem exists_lead_of_directiveName (h : directiveName isStatic parts = (kind, name)) :
    ∃ lead, parts = lead ++ name := by
  unfold directiveName at h
  simp only at h
  split at h
  · cases h
    exact ⟨[], rfl⟩
  · next first others =>
      split at h
      · cases h
        exact ⟨[], rfl⟩
      · next equals target hdrop =>
          cases h
          refine ⟨first :: (others.takeWhile fun token => !token.isMark '=') ++ [equals], ?_⟩
          rw [List.append_assoc, List.singleton_append, ← hdrop, List.cons_append,
            List.prefix_iff_eq_append.mp (List.takeWhile_prefix _)]

theorem Segment.exists_name (h : Segment nested rest segment (.directive found)) :
    ∃ first lead name close head last, segment = first :: lead ++ name ++ [close] ∧
      first.isWord (if found.isGlobal then "global" else "using") = true ∧
        close.isMark ';' = true ∧ head ∈ name.head? ∧ last ∈ name.getLast? ∧
          found.name = joined name ∧ found.span = ⟨first.start, close.stop⟩ ∧
            found.nameSpan = head.span.cover last.span := by
  cases h with
  | @directive token tokens body isGlobal _ hopens hne hbody =>
      obtain ⟨lead, using', htokens, hlead, husing, _⟩ := opensDirective?_eq_some_iff.mp hopens
      obtain ⟨parts, close, hparts, _, hclose, hfound⟩ := directive_eq_ok_iff.mp hbody
      obtain ⟨keyword, hkeyword⟩ := exists_dropWord "static" body
      obtain ⟨head, hhead, last, hlast, rfl⟩ := directiveOf?_eq_some_iff.mp hfound
      cases hname : directiveName (dropWord "static" body).1 parts with
      | mk kind name =>
          rw [hname] at hhead hlast
          obtain ⟨alias', halias⟩ := exists_lead_of_directiveName hname
          have hafter : body = keyword ++ alias' ++ name ++ [close] := by
            rw [hkeyword, hparts, halias]
            simp
          rcases hlead with ⟨rfl, rfl⟩ | ⟨rfl, first, rfl, hfirst⟩
          · obtain ⟨rfl, rfl⟩ := List.cons.inj htokens
            exact ⟨token, keyword ++ alias', name, close, head, last, by rw [hafter]; simp, husing,
              hclose, hhead, hlast, rfl, rfl, rfl⟩
          · obtain ⟨rfl, rfl⟩ := List.cons.inj htokens
            exact ⟨token, using' :: keyword ++ alias', name, close, head, last,
              by rw [hafter]; simp, hfirst, hclose, hhead, hlast, rfl, rfl, rfl⟩

theorem Segment.placed (h : Segment nested rest segment (.directive found))
    (hsource : Token.Source text tokens) (hcode : Token.code tokens = taken ++ (segment ++ rest)) :
    found.Placed text tokens := by
  obtain ⟨first, lead, name, close, head, last, rfl, hfirst, hclose, hhead, hlast, hname, hspan,
    hnameSpan⟩ := h.exists_name
  have htile := hsource.tile
  -- the segment cut at the name, whose tokens stand between the keywords and the semicolon
  have hsplit : Token.code tokens = taken ++ first :: lead ++ (name ++ (close :: rest)) := by
    rw [hcode]
    simp
  have hmem : ∀ token ∈ taken ++ first :: lead ++ (name ++ (close :: rest)), token ∈ tokens := by
    rw [← hsplit]
    exact fun token htoken => (List.mem_filter.mp htoken).1
  have hordered := htile.ordered.filter fun token => !token.kind.isTrivia
  change (Token.code tokens).Pairwise _ at hordered
  rw [hsplit] at hordered
  have hpos : ∀ token ∈ taken ++ first :: lead ++ (name ++ (close :: rest)),
      token.start < token.stop := fun token htoken => htile.nonempty token (hmem token htoken)
  have hheadMem := List.mem_of_mem_head? hhead
  have hlastMem := List.mem_of_mem_getLast? hlast
  obtain ⟨-, hbehind, hahead⟩ := List.pairwise_append.mp hordered
  obtain ⟨hinside, -, hclosing⟩ := List.pairwise_append.mp hbehind
  have hfirstPos := hpos first (by simp)
  have hclosePos := hpos close (by simp)
  have hheadPos := hpos head (by simp [hheadMem])
  have hfirstHead := hahead first (by simp) head (List.mem_append_left _ hheadMem)
  have hlastClose := hclosing last hlastMem close List.mem_cons_self
  have hbetween := Token.between_of_pairwise hinside
    (fun token htoken => hpos token (by simp [htoken])) hhead hlast hlastMem
  have hheadLast := (Token.between_of_pairwise hinside
    (fun token htoken => hpos token (by simp [htoken])) hhead hlast hheadMem).2
  have hcover : found.nameSpan = ⟨head.start, last.stop⟩ := by
    rw [hnameSpan, Span.cover, Token.span, Token.span, Span.mk.injEq]
    exact ⟨Nat.min_eq_left hbetween.1, Nat.max_eq_right hheadLast⟩
  have hfirstWord := (Token.isWord_iff.mp hfirst).2
  have hcloseMark := hsource.marks close (hmem close (by simp)) ';' hclose
  refine ⟨?_, ?_, ?_, ?_, ?_, ?_, ?_⟩
  · rw [hspan]
    exact htile.cuts (hmem first (by simp)) (hmem close (by simp)) (by omega)
  · rw [← hfirstWord, hspan]
    exact htile.lexeme_prefix (hmem first (by simp)) (by omega)
  · rw [← hcloseMark, hspan]
    exact htile.lexeme_suffix (hmem first (by simp)) (hmem close (by simp)) (by omega)
  · rw [hcover]
    exact htile.cuts (hmem head (by simp [hheadMem])) (hmem last (by simp [hlastMem])) (by omega)
  · rw [hcover, hspan, Span.containsSpan_iff]
    constructor
    · simp only
      omega
    · simp only
      omega
  · intro hempty
    rw [hname, joined, List.flatten_eq_nil_iff] at hempty
    have hnil := hempty head.lexeme (List.mem_map_of_mem hheadMem)
    rw [Token.stop, hnil] at hheadPos
    exact absurd hheadPos (Nat.lt_irrefl _)
  · rw [hname, hcover, hsplit, Token.filter_containsSpan hordered hpos hhead hlast]

/-! ## Blocks -/

/-- What has been read of a block stands nested in a span, and namespaces come only after something
other than a directive. -/
structure Block.Holds (text : Text) (tokens : List Token) (span : Span) (block : Block) : Prop where
  le : span.start ≤ span.stop
  placed : ∀ directive ∈ block.directives, directive.Placed text tokens
  nests : span.Nests block.directives block.namespaces
  namespaces : ∀ declaration ∈ Namespace.everywhere block.namespaces,
    declaration.Placed text tokens
  early : block.begun = false → block.namespaces = []

namespace Block.Holds

theorem empty (text : Text) (tokens : List Token) {span : Span} (hle : span.start ≤ span.stop) :
    Holds text tokens span {} :=
  ⟨hle, fun _ h => absurd h List.not_mem_nil,
    ⟨fun _ h => absurd h List.not_mem_nil, .nil, fun _ h => absurd h List.not_mem_nil,
      fun _ h => absurd h List.not_mem_nil, .nil⟩,
    fun _ h => absurd (Namespace.everywhere.eq_1 ▸ h) List.not_mem_nil, fun _ => rfl⟩

theorem mono (h : Holds text tokens ⟨lo, cursor⟩ block) (hle : cursor ≤ stop) :
    Holds text tokens ⟨lo, stop⟩ block := by
  have hwide : ∀ span : Span, Span.containsSpan ⟨lo, cursor⟩ span = true →
      Span.containsSpan ⟨lo, stop⟩ span = true := fun span hinside => by
    obtain ⟨hstart, hstop⟩ := Span.containsSpan_iff.mp hinside
    exact Span.containsSpan_iff.mpr ⟨hstart, Nat.le_trans hstop hle⟩
  exact ⟨Nat.le_trans h.le hle, h.placed,
    ⟨fun directive hmem => hwide _ (h.nests.directivesInside directive hmem),
      h.nests.directivesApart, h.nests.between,
      fun declaration hmem => hwide _ (h.nests.namespacesInside declaration hmem),
      h.nests.namespacesApart⟩,
    h.namespaces, h.early⟩

theorem begin (h : Holds text tokens ⟨lo, cursor⟩ block) :
    Holds text tokens ⟨lo, cursor⟩ { block with begun := true } :=
  ⟨h.le, h.placed, h.nests, h.namespaces, fun hbegun => Bool.noConfusion hbegun⟩

theorem addDirective (h : Holds text tokens ⟨lo, cursor⟩ block) (hbegun : block.begun = false)
    (hfound : found.Placed text tokens) (hstart : cursor ≤ found.span.start) :
    Holds text tokens ⟨lo, found.span.stop⟩
      { block with directives := block.directives ++ [found] } := by
  have hle := hfound.cuts.le
  have hlo : lo ≤ cursor := h.le
  have hnone := h.early hbegun
  have hwide := h.mono (Nat.le_trans hstart hle)
  refine ⟨hwide.le, fun directive hmem => ?_, ⟨fun directive hmem => ?_, ?_, ?_, ?_, ?_⟩,
    h.namespaces, h.early⟩
  · rcases List.mem_append.mp hmem with hmem | hmem
    · exact h.placed directive hmem
    · exact List.mem_singleton.mp hmem ▸ hfound
  · rcases List.mem_append.mp hmem with hmem | hmem
    · exact hwide.nests.directivesInside directive hmem
    · rw [List.mem_singleton.mp hmem]
      exact Span.containsSpan_iff.mpr ⟨Nat.le_trans hlo hstart, Nat.le_refl _⟩
  · refine List.pairwise_append.mpr ⟨h.nests.directivesApart, List.pairwise_singleton _ _, ?_⟩
    intro directive hmem last hlast
    rw [List.mem_singleton.mp hlast]
    have hinside := (Span.containsSpan_iff.mp (h.nests.directivesInside directive hmem)).2
    exact Nat.le_trans hinside hstart
  · intro directive _ declaration hmem
    rw [hnone] at hmem
    cases hmem
  · exact hwide.nests.namespacesInside
  · exact h.nests.namespacesApart

theorem addNamespace (h : Holds text tokens ⟨lo, opened.start⟩ block)
    (hinner : Holds text tokens ⟨opened.start, stop⟩ inner)
    (hcuts : Span.Cuts text ⟨opened.start, stop⟩)
    (hopens : "namespace".toList <+: Span.slice ⟨opened.start, stop⟩ text)
    (hcloses : opened.fileScoped = false → ['\x7d'] <:+ Span.slice ⟨opened.start, stop⟩ text)
    (hruns : opened.fileScoped = true → stop = text.size) :
    Holds text tokens ⟨lo, stop⟩ (State.addNamespace opened block inner stop) := by
  have hlo : lo ≤ opened.start := h.le
  have hwide := h.mono hcuts.le
  refine ⟨hwide.le, h.placed, ⟨hwide.nests.directivesInside, h.nests.directivesApart, ?_, ?_, ?_⟩, ?_,
    fun hbegun => Bool.noConfusion hbegun⟩
  · intro directive hmem declaration hmem'
    rcases List.mem_append.mp hmem' with hmem' | hmem'
    · exact h.nests.between directive hmem declaration hmem'
    · rw [List.mem_singleton.mp hmem']
      exact (Span.containsSpan_iff.mp (h.nests.directivesInside directive hmem)).2
  · intro declaration hmem
    rcases List.mem_append.mp hmem with hmem | hmem
    · exact hwide.nests.namespacesInside declaration hmem
    · rw [List.mem_singleton.mp hmem]
      exact Span.containsSpan_iff.mpr ⟨hlo, Nat.le_refl _⟩
  · refine List.pairwise_append.mpr ⟨h.nests.namespacesApart, List.pairwise_singleton _ _, ?_⟩
    intro declaration hmem added hadded
    rw [List.mem_singleton.mp hadded]
    exact (Span.containsSpan_iff.mp (h.nests.namespacesInside declaration hmem)).2
  · intro declaration hmem
    simp only [State.addNamespace, Namespace.everywhere_append, Namespace.everywhere,
      List.append_nil] at hmem
    rcases List.mem_append.mp hmem with hmem | hmem
    · exact h.namespaces declaration hmem
    · rcases List.mem_cons.mp hmem with rfl | hmem
      · exact ⟨hcuts, hopens, hcloses, hruns, hinner.placed, hinner.nests⟩
      · exact hinner.namespaces declaration hmem

end Block.Holds

/-- The open blocks, each inside the next one, where the innermost has been read up to `cursor`. A
file-scoped namespace has none around it but others of its kind. -/
inductive Open (text : Text) (tokens : List Token) : Nat → Block → List (Header × Block) → Prop
  | file {cursor : Nat} {block : Block} (hblock : block.Holds text tokens ⟨0, cursor⟩) :
      Open text tokens cursor block []
  | inside {cursor : Nat} {block outer : Block} {opened : Header} {rest : List (Header × Block)}
      {keyword : Token} (hblock : block.Holds text tokens ⟨opened.start, cursor⟩)
      (hkeyword : keyword ∈ tokens) (hword : keyword.isWord "namespace" = true)
      (hstart : keyword.start = opened.start) (hstop : keyword.stop ≤ cursor)
      (hscoped : opened.fileScoped = true → ∀ level ∈ rest, level.1.fileScoped = true)
      (houter : Open text tokens opened.start outer rest) :
      Open text tokens cursor block ((opened, outer) :: rest)

namespace Open

/-- The innermost block may change as long as it still holds what it should. -/
theorem change (h : Open text tokens cursor block outer) (hle : cursor ≤ stop)
    (hblock : ∀ lo, block.Holds text tokens ⟨lo, cursor⟩ → inner.Holds text tokens ⟨lo, stop⟩) :
    Open text tokens stop inner outer := by
  cases h with
  | file hheld => exact .file (hblock 0 hheld)
  | inside hheld hkeyword hword hstart hstop hscoped houter =>
      exact .inside (hblock _ hheld) hkeyword hword hstart (Nat.le_trans hstop hle) hscoped houter

theorem mono (h : Open text tokens cursor block outer) (hle : cursor ≤ stop) :
    Open text tokens stop block outer :=
  h.change hle fun _ hblock => hblock.mono hle

/-- Where no brace is due, every namespace around is file-scoped. -/
theorem fileScoped (h : Open text tokens cursor block outer)
    (hbraced : State.isBraced ⟨block, outer, []⟩ = false) :
    ∀ level ∈ outer, level.1.fileScoped = true := by
  cases h with
  | file => exact fun _ hmem => absurd hmem List.not_mem_nil
  | @inside _ _ _ opened _ _ _ _ _ _ _ hscoped _ =>
      have hopened : opened.fileScoped = true := by simpa [State.isBraced] using hbraced
      intro level hmem
      rcases List.mem_cons.mp hmem with rfl | hmem
      · exact hopened
      · exact hscoped hopened level hmem

theorem leave {around : Block} (h : Open text tokens cursor block ((opened, around) :: outer))
    (hsource : Token.Source text tokens) (hle : cursor ≤ stop) (hsize : stop ≤ text.size)
    (hboundary : text.isBoundary stop = true)
    (hcloses : opened.fileScoped = false → ['\x7d'] <:+ Span.slice ⟨opened.start, stop⟩ text)
    (hruns : opened.fileScoped = true → stop = text.size) :
    Open text tokens stop (State.addNamespace opened around block stop) outer := by
  cases h with
  | @inside _ _ _ _ _ keyword hblock hkeyword hword hstart hstop _ houter =>
      have hopens := hsource.tile.lexeme_prefix hkeyword (Nat.le_trans hstop hle)
      rw [(Token.isWord_iff.mp hword).2, hstart] at hopens
      have hlo : opened.start ≤ stop := Nat.le_trans hblock.le hle
      have hcuts : Span.Cuts text ⟨opened.start, stop⟩ :=
        ⟨hlo, hsize, hstart ▸ (hsource.tile.boundary keyword hkeyword).1, hboundary⟩
      exact houter.change hlo fun _ hheld =>
        hheld.addNamespace (hblock.mono hle) hcuts hopens hcloses hruns

theorem leave_brace {around : Block} (h : Open text tokens cursor block ((opened, around) :: outer))
    (hsource : Token.Source text tokens) (htoken : token ∈ tokens)
    (hmark : token.isMark '\x7d' = true) (hfrom : cursor ≤ token.start)
    (hscoped : opened.fileScoped = false) :
    Open text tokens token.stop (State.addNamespace opened around block token.stop) outer := by
  have hpos := hsource.tile.nonempty token htoken
  have hends : ['\x7d'] <:+ Span.slice ⟨opened.start, token.stop⟩ text := by
    cases h with
    | @inside _ _ _ _ _ keyword hblock hkeyword _ hstart _ _ _ =>
        have hlo : opened.start ≤ cursor := hblock.le
        rw [← hsource.marks token htoken '\x7d' hmark, ← hstart]
        exact hsource.tile.lexeme_suffix hkeyword htoken (by omega)
  exact h.leave hsource (by omega) (hsource.tile.inside token htoken)
    (hsource.tile.boundary token htoken).2 (fun _ => hends)
    (fun hrun => by rw [hscoped] at hrun; cases hrun)

theorem addDirective (h : Open text tokens cursor state.block state.outer)
    (hfound : found.Placed text tokens) (hstart : cursor ≤ found.span.start)
    (hstop : found.span.stop ≤ stop) :
    Open text tokens stop (state.addDirective found).block (state.addDirective found).outer := by
  have hle : cursor ≤ stop := Nat.le_trans hstart (Nat.le_trans hfound.cuts.le hstop)
  unfold State.addDirective
  split
  · exact h.mono hle
  · next hbegun =>
      exact h.change hle fun _ hblock =>
        (hblock.addDirective (by simpa using hbegun) hfound hstart).mono hstop

end Open

theorem header_fileScoped {size start : Nat} {name : Text} {inside : List Token}
    (h : header size start nested name inside = .ok (opened, rest))
    (hscoped : opened.fileScoped = true) : nested = false := by
  obtain ⟨_, _, -, -, hends, -⟩ := header_eq_ok_iff.mp h
  rw [hscoped] at hends
  cases hends with
  | semicolon _ hnested => exact hnested

theorem Open.enter {size : Nat} {inside : List Token}
    (h : Open text tokens cursor state.block state.outer) (htoken : token ∈ tokens)
    (hword : token.isWord "namespace" = true)
    (hheader : header size token.start state.isBraced [] inside = .ok (opened, rest))
    (hfrom : cursor ≤ token.start) (hpos : token.start < token.stop) (hto : token.stop ≤ stop) :
    Open text tokens stop (state.enter opened).block (state.enter opened).outer := by
  have hstart := header_start hheader
  have hlo : opened.start ≤ stop := by omega
  refine .inside (.empty text tokens hlo) htoken hword hstart.symm hto (fun hscoped => ?_)
    (h.mono (hstart ▸ hfrom))
  exact h.fileScoped (header_fileScoped hheader hscoped)

theorem Segment.ne_nil (h : Segment nested rest segment role) : segment ≠ [] := by
  cases h <;> exact List.cons_ne_nil _ _

theorem mem_of_code_eq (hcode : Token.code tokens = taken ++ (segment ++ rest))
    (h : token ∈ segment) : token ∈ tokens := by
  have hcoded : token ∈ Token.code tokens := by
    rw [hcode]
    exact List.mem_append_right _ (List.mem_append_left _ h)
  exact (List.mem_filter.mp hcoded).1

theorem Segment.open_act (h : Segment state.isBraced rest segment role)
    (hopen : Open text tokens cursor state.block state.outer) (hsource : Token.Source text tokens)
    (hcode : Token.code tokens = taken ++ (segment ++ rest))
    (hcursor : ∀ token ∈ segment, cursor ≤ token.start)
    (hstop : ∀ token ∈ segment, token.stop ≤ stop) :
    Open text tokens stop (role.act state).block (role.act state).outer := by
  have hpos : ∀ token ∈ segment, token.start < token.stop := fun token htoken =>
    hsource.tile.nonempty token (mem_of_code_eq hcode htoken)
  have hle : cursor ≤ stop := by
    obtain ⟨token, htoken⟩ := List.exists_mem_of_ne_nil segment h.ne_nil
    exact Nat.le_trans (hcursor token htoken) (Nat.le_trans (Nat.le_of_lt (hpos token htoken))
      (hstop token htoken))
  cases role with
  | leave =>
      cases h with
      | @leave token hmark hbraced =>
          -- a brace is only due inside a namespace that began with one
          obtain ⟨block, _ | ⟨⟨opened, around⟩, outer⟩, late⟩ := state
          · cases hbraced
          have hscoped : opened.fileScoped = false := by simpa [State.isBraced] using hbraced
          have hleft := hopen.leave_brace hsource (mem_of_code_eq hcode List.mem_cons_self) hmark
            (hcursor token List.mem_cons_self) hscoped
          exact hleft.mono (hstop token List.mem_cons_self)
  | externAlias => exact hopen.mono hle
  | directive found =>
      obtain ⟨first, lead, name, close, -, -, hsegment, -, -, -, -, -, hspan, -⟩ := h.exists_name
      have hfirst := hcursor first (by rw [hsegment]; simp)
      have hclose := hstop close (by rw [hsegment]; simp)
      exact hopen.addDirective (h.placed hsource hcode) (by rw [hspan]; exact hfirst)
        (by rw [hspan]; exact hclose)
  | enter opened =>
      cases h with
      | @enter token inside _ hword hheader =>
          exact hopen.enter (mem_of_code_eq hcode List.mem_cons_self) hword hheader
            (hcursor token List.mem_cons_self) (hpos token List.mem_cons_self)
            (hstop token List.mem_cons_self)
  | begin => exact hopen.change hle fun _ hblock => (hblock.mono hle).begin

theorem Parse.open_last {remaining : List Token} (h : Parse state remaining last)
    (hsource : Token.Source text tokens) (hcode : Token.code tokens = taken ++ remaining)
    (hopen : Open text tokens cursor state.block state.outer)
    (hcursor : ∀ token ∈ remaining, cursor ≤ token.start) (hsize : cursor ≤ text.size) :
    Open text tokens text.size last.block last.outer ∧ last.isBraced = false := by
  induction h generalizing cursor taken with
  | done hbraced => exact ⟨hopen.mono hsize, hbraced⟩
  | @step state last segment rest role hsegment hrest ih =>
      have hordered := hsource.tile.ordered.filter fun token => !token.kind.isTrivia
      change (Token.code tokens).Pairwise _ at hordered
      rw [hcode] at hordered
      obtain ⟨-, hremaining, -⟩ := List.pairwise_append.mp hordered
      obtain ⟨hinside, -, hbehind⟩ := List.pairwise_append.mp hremaining
      have hpos : ∀ token ∈ segment, token.start < token.stop := fun token htoken =>
        hsource.tile.nonempty token (mem_of_code_eq hcode htoken)
      -- the step ends with the last token of its segment
      have hlast := List.getLast?_eq_some_getLast hsegment.ne_nil
      have hlastMem := List.getLast_mem hsegment.ne_nil
      have hhead := List.head?_eq_some_head hsegment.ne_nil
      have hcode' : Token.code tokens = taken ++ segment ++ rest := by rw [hcode, List.append_assoc]
      have hopen' := hsegment.open_act hopen hsource hcode
        (fun token htoken => hcursor token (List.mem_append_left _ htoken))
        (fun token htoken => (Token.between_of_pairwise hinside hpos hhead hlast htoken).2)
      exact ih hcode' hopen' (hbehind _ hlastMem) (hsource.tile.inside _ (mem_of_code_eq hcode hlastMem))

/-- Closing the namespaces that run to the end of the file leaves a well nested tree. -/
theorem Open.nested_close (h : Open text tokens text.size block outer)
    (hsource : Token.Source text tokens) (hscoped : ∀ level ∈ outer, level.1.fileScoped = true) :
    (State.close text.size block outer).Nested text tokens := by
  induction outer generalizing block with
  | nil =>
      cases h with
      | file hblock =>
          exact ⟨rfl, ⟨Nat.zero_le _, Nat.le_refl _, Text.isBoundary_zero text,
            Text.isBoundary_size text⟩, hblock.placed, hblock.nests, hblock.namespaces⟩
  | cons level outer ih =>
      obtain ⟨opened, around⟩ := level
      have hopened := hscoped (opened, around) List.mem_cons_self
      have hleft := h.leave hsource (Nat.le_refl _) (Nat.le_refl _) (Text.isBoundary_size text)
        (fun hbraced => by rw [hopened] at hbraced; cases hbraced) (fun _ => rfl)
      exact ih hleft fun level hmem => hscoped level (List.mem_cons_of_mem _ hmem)

end Read

/-- **Trees are well nested.** Wherever the reader gives a tree, the spans of directives and namespaces
cut the text between characters, stand in order, apart and inside each other, and hold the tokens that
they are said to hold. -/
theorem CSharp.tree_nested {path : Path} {text : Text} {tree : Tree}
    (h : (CSharp.reader path text).tree = some tree) :
    ∃ tokens, tokenize text = .ok tokens ∧ tree.Nested text tokens := by
  obtain ⟨late, hread⟩ := CSharp.tree_reader_eq_some_iff.mp h
  obtain ⟨tokens, last, htokens, hparse, -, rfl⟩ := CSharp.read_eq_ok_iff.mp hread
  have hsource := source_of_tokenize htokens
  have hfirst : Read.Open text tokens 0 ({} : Read.State).block ({} : Read.State).outer :=
    .file (.empty text tokens (Nat.le_refl 0))
  obtain ⟨hopen, hbraced⟩ := hparse.open_last hsource (List.nil_append _).symm hfirst
    (fun _ _ => Nat.zero_le _) (Nat.zero_le _)
  exact ⟨tokens, htokens, hopen.nested_close hsource (hopen.fileScoped hbraced)⟩

/-- A global directive stands in front of a namespace that holds an alias and another namespace. -/
theorem CSharp.tree_nested_of_namespaces :
    ∃ tree tokens, (CSharp.reader ⟨"a.cs"⟩
        "global using A;\nnamespace N \x7b using B = C.D; class E; namespace F \x7b \x7d \x7d".toList).tree =
          some tree ∧
      tokenize "global using A;\nnamespace N \x7b using B = C.D; class E; namespace F \x7b \x7d \x7d".toList =
          .ok tokens ∧
      tree.Nested
        "global using A;\nnamespace N \x7b using B = C.D; class E; namespace F \x7b \x7d \x7d".toList tokens := by
  obtain ⟨tree, htree⟩ := Option.isSome_iff_exists.mp
    (by decide +kernel : (CSharp.reader ⟨"a.cs"⟩
      "global using A;\nnamespace N \x7b using B = C.D; class E; namespace F \x7b \x7d \x7d".toList).tree.isSome)
  obtain ⟨tokens, htokens, hnested⟩ := CSharp.tree_nested htree
  exact ⟨tree, tokens, htree, htokens, hnested⟩

end CSharpTidy
