import CSharpTidy.Proofs.Token.Context
import CSharpTidy.Proofs.Tree.Moved

/-!
# Where the segments of a reading stand among pieces

The reader sees the tokens of a text without its comments. Here a segment of a reading gets its place
back: the pieces from its first token to its last one, behind pieces that hold no token the reader
sees.
-/

namespace CSharpTidy

namespace Piece

variable {pieces first second : List Piece} {offset offset' : Nat} {segment rest : List Token}

def width (pieces : List Piece) : Nat := (spell pieces).size

@[simp] theorem width_nil : width [] = 0 := rfl

@[simp] theorem width_append (first second : List Piece) :
    width (first ++ second) = width first + width second := by
  simp [width]

/-- The tokens among pieces that say something about declarations. -/
def code (offset : Nat) (pieces : List Piece) : List Token := Token.code (locate offset pieces)

@[simp] theorem code_nil (offset : Nat) : code offset [] = [] := rfl

theorem code_append (offset : Nat) (first second : List Piece) :
    code offset (first ++ second) = code offset first ++ code (offset + width first) second := by
  unfold code Token.code
  rw [locate_append, List.filter_append]
  rfl

theorem code_blank (offset : Nat) (c : Char) (pieces : List Piece) :
    code offset (.blank c :: pieces) = code (offset + c.utf8Size) pieces := rfl

theorem code_token (offset : Nat) (kind : TokenKind) (lexeme : Text) (pieces : List Piece) :
    code offset (.token kind lexeme :: pieces) =
      if kind.isTrivia then code (offset + lexeme.size) pieces
      else ⟨kind, lexeme, offset⟩ :: code (offset + lexeme.size) pieces := by
  unfold code Token.code
  rw [locate]
  cases htrivia : kind.isTrivia <;> simp [htrivia]

/-- Tokens that differ in their offsets as two offsets do. -/
def Shifted (offset offset' : Nat) (token token' : Token) : Prop :=
  token.kind = token'.kind ∧ token.lexeme = token'.lexeme ∧
    token'.start + offset = token.start + offset'

theorem keeps_shifted (offset offset' : Nat) : Token.Keeps (Shifted offset offset') :=
  fun _ _ h => ⟨h.1, h.2.1⟩

theorem forall₂_shifted_code (offset offset' : Nat) (pieces : List Piece) :
    List.Forall₂ (Shifted offset offset') (code offset pieces) (code offset' pieces) := by
  have hfrom : ∀ distance, List.Forall₂ (Shifted offset offset') (code (offset + distance) pieces)
      (code (offset' + distance) pieces) := by
    induction pieces with
    | nil => exact fun _ => .nil
    | cons piece pieces ih =>
        intro distance
        cases piece with
        | blank c =>
            rw [code_blank, code_blank, Nat.add_assoc, Nat.add_assoc]
            exact ih _
        | token kind lexeme =>
            rw [code_token, code_token, Nat.add_assoc, Nat.add_assoc]
            split
            · exact ih _
            · refine .cons ⟨rfl, rfl, ?_⟩ (ih _)
              simp only
              omega
  exact hfrom 0

/-- Pieces from the first token of a segment to its last. -/
structure Framed (offset : Nat) (pieces : List Piece) (segment : List Token) : Prop where
  code : code offset pieces = segment
  first : ∀ token ∈ segment.head?,
    token.start = offset ∧ ∃ after, pieces = .token token.kind token.lexeme :: after
  last : ∀ token ∈ segment.getLast?,
    token.stop = offset + width pieces ∧ ∃ before, pieces = before ++ [.token token.kind token.lexeme]

/-- The first token that the reader sees stands behind pieces that it does not see. -/
theorem exists_lead {token : Token} (h : code offset pieces = token :: rest) :
    ∃ lead after, pieces = lead ++ .token token.kind token.lexeme :: after ∧
      code offset lead = [] ∧ token.start = offset + width lead ∧ token.kind.isTrivia = false ∧
        code (offset + width lead + token.lexeme.size) after = rest := by
  induction pieces generalizing offset with
  | nil => cases h
  | cons piece pieces ih =>
      cases piece with
      | blank c =>
          rw [code_blank] at h
          obtain ⟨lead, after, rfl, hlead, hstart, hkind, hrest⟩ := ih h
          have hwidth : width (.blank c :: lead) = c.utf8Size + width lead := rfl
          refine ⟨.blank c :: lead, after, rfl, hlead, ?_, hkind, ?_⟩
          · rw [hwidth, hstart]
            omega
          · rw [hwidth, ← hrest]
            congr 1
            omega
      | token kind lexeme =>
          rw [code_token] at h
          split at h
          · next htrivia =>
              -- comments and the like belong to what the reader does not see
              obtain ⟨lead, after, rfl, hlead, hstart, hkind, hrest⟩ := ih h
              have hwidth : width (.token kind lexeme :: lead) = lexeme.size + width lead :=
                Text.size_append lexeme (spell lead)
              refine ⟨.token kind lexeme :: lead, after, rfl, ?_, ?_, hkind, ?_⟩
              · rw [code_token, if_pos htrivia, hlead]
              · rw [hwidth, hstart]
                omega
              · rw [hwidth, ← hrest]
                congr 1
                omega
          · next htrivia =>
              obtain ⟨rfl, hrest⟩ := List.cons.inj h
              exact ⟨[], pieces, rfl, rfl, rfl, by simpa using htrivia, hrest⟩

theorem width_token (kind : TokenKind) (lexeme : Text) (pieces : List Piece) :
    width (.token kind lexeme :: pieces) = lexeme.size + width pieces :=
  Text.size_append lexeme (spell pieces)

theorem exists_cut (h : code offset pieces = segment ++ rest) (hne : segment ≠ []) :
    ∃ lead body after, pieces = lead ++ (body ++ after) ∧ code offset lead = [] ∧
      Framed (offset + width lead) body segment ∧
        code (offset + width lead + width body) after = rest := by
  induction segment generalizing offset pieces with
  | nil => exact absurd rfl hne
  | cons token segment ih =>
      obtain ⟨lead, after, rfl, hlead, hstart, hkind, hafter⟩ := exists_lead h
      have hself : ∀ pieces, code (offset + width lead) (.token token.kind token.lexeme :: pieces) =
          token :: code (offset + width lead + token.lexeme.size) pieces := by
        intro pieces
        rw [code_token, if_neg (by simp [hkind]), ← hstart]
      -- the last token of a segment closes the body, any other leaves a gap to the next
      by_cases hempty : segment = []
      · subst hempty
        refine ⟨lead, [.token token.kind token.lexeme], after, rfl, hlead, ⟨?_, ?_, ?_⟩, ?_⟩
        · rw [hself]
          rfl
        · rintro first ⟨⟩
          exact ⟨hstart, [], rfl⟩
        · intro last hlast
          obtain rfl : token = last := by simpa using hlast
          refine ⟨?_, [], rfl⟩
          rw [Token.stop, hstart, width_token]
          rfl
        · rw [width_token]
          exact hafter
      · obtain ⟨gap, body, others, rfl, hgap, hbody, hothers⟩ := ih hafter hempty
        obtain ⟨last, hlast⟩ := Option.ne_none_iff_exists'.mp fun hnone =>
          hempty (List.getLast?_eq_none_iff.mp hnone)
        have hwidth : width (.token token.kind token.lexeme :: (gap ++ body)) =
            token.lexeme.size + (width gap + width body) := by
          rw [width_token, width_append]
        refine ⟨lead, .token token.kind token.lexeme :: (gap ++ body), others, by simp, hlead,
          ⟨?_, ?_, ?_⟩, ?_⟩
        · rw [hself, code_append, hgap, List.nil_append, hbody.code]
        · rintro first ⟨⟩
          exact ⟨hstart, gap ++ body, rfl⟩
        · intro found hfound
          rw [Option.mem_def, List.getLast?_cons, hlast, Option.getD_some, Option.some.injEq] at hfound
          subst hfound
          obtain ⟨hstop, before, rfl⟩ := hbody.last last hlast
          refine ⟨?_, .token token.kind token.lexeme :: (gap ++ before), by simp⟩
          rw [hstop, hwidth]
          omega
        · rw [hwidth, ← hothers]
          congr 1
          omega

end Piece

namespace Read

variable {nested : Bool} {rest segment : List Token} {found : Directive}

theorem getLast?_of_afterSemicolon {tokens : List Token} (h : afterSemicolon tokens = some []) :
    ∃ last ∈ tokens.getLast?, last.isMark ';' = true := by
  induction tokens with
  | nil => cases h
  | cons token tokens ih =>
      unfold afterSemicolon at h
      split at h
      · next hmark =>
          cases h
          exact ⟨token, rfl, hmark⟩
      · obtain ⟨last, hlast, hmark⟩ := ih h
        refine ⟨last, ?_, hmark⟩
        rw [Option.mem_def] at hlast ⊢
        rw [List.getLast?_cons, hlast, Option.getD_some]

/-- The reference to an external alias begins with its keyword, ends with a semicolon and does not
look any further. -/
theorem Segment.of_externAlias (h : Segment nested rest segment .externAlias) :
    (∃ first ∈ segment.head?, first.isWord "extern" = true) ∧
      (∃ last ∈ segment.getLast?, last.isMark ';' = true) ∧
        ∀ nested' rest', Segment nested' rest' segment .externAlias := by
  cases h with
  | @externAlias token tokens hextern halias hend =>
      refine ⟨⟨token, rfl, hextern⟩, ?_, fun _ _ => .externAlias hextern halias hend⟩
      obtain ⟨last, hlast, hmark⟩ := getLast?_of_afterSemicolon hend
      refine ⟨last, ?_, hmark⟩
      rw [Option.mem_def] at hlast ⊢
      rw [List.getLast?_cons, hlast, Option.getD_some]

/-- A directive spans its segment, begins with one of its keywords, ends with a semicolon and does
not look any further. -/
theorem Segment.of_directive (h : Segment nested rest segment (.directive found)) :
    ∃ first ∈ segment.head?, ∃ last ∈ segment.getLast?,
      (first.isWord "global" = true ∨ first.isWord "using" = true) ∧ last.isMark ';' = true ∧
        found.span = ⟨first.start, last.stop⟩ ∧
          ∀ nested' rest', Segment nested' rest' segment (.directive found) := by
  cases h with
  | @directive token tokens body isGlobal _ hopens hne hbody =>
      obtain ⟨lead, using', htokens, hlead, husing, _⟩ := opensDirective?_eq_some_iff.mp hopens
      obtain ⟨parts, close, hparts, _, hclose, hfound⟩ := directive_eq_ok_iff.mp hbody
      obtain ⟨keyword, hkeyword⟩ := exists_dropWord "static" body
      have hsegment : token :: tokens = (lead ++ using' :: keyword ++ parts) ++ [close] := by
        rw [htokens, hkeyword, hparts]
        simp
      refine ⟨token, rfl, close, ?_, ?_, hclose, ?_, fun _ _ => .directive hopens hne hbody⟩
      · rw [hsegment, Option.mem_def, List.getLast?_concat]
      · rcases hlead with ⟨_, rfl⟩ | ⟨_, first, rfl, hfirst⟩
        · obtain ⟨rfl, -⟩ := List.cons.inj htokens
          exact .inr husing
        · obtain ⟨rfl, -⟩ := List.cons.inj htokens
          exact .inl hfirst
      · obtain ⟨_, _, _, _, rfl⟩ := directiveOf?_eq_some_iff.mp hfound
        rfl

end Read

end CSharpTidy
