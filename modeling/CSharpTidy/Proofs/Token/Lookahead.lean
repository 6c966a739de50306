import CSharpTidy.Proofs.Token.Piece

/-!
# What a token sees of the text behind it

Whether the scanner takes a token depends on little of what follows it. For tokens inside a line this
is `sight`: a few characters, of which the letters count by their class only and blanks not at all.
Tokens that run to the end of their line also see how the line ends. What is alike in these respects
is scanned in the same way.
-/

namespace CSharpTidy

/-- Whether tokens of this kind run to the end of their line. -/
def TokenKind.isLine : TokenKind → Bool
  | lineComment => true
  | preprocessor => true
  | _ => false

/-- Of comments and the like only block comments go on behind the end of a line. -/
theorem TokenKind.eq_blockComment {kind : TokenKind} (htrivia : kind.isTrivia = true)
    (hline : kind.isLine = false) : kind = .blockComment := by
  cases kind <;> first | rfl | exact Bool.noConfusion htrivia | exact Bool.noConfusion hline

namespace Scan

/-- What a token inside a line sees of the text behind it. -/
def sight : Text → Text
  | [] => []
  | c :: text =>
      if isBlank c then []
      else if c.isAlphanum || c == '_' then ['a']
      else if isIdentifierChar c then ['\u0080']
      else if c == '.' || c == '$' || c == '@' || c == '"' then c :: sight text
      else [c]

def breaks : Text → Bool
  | [] => true
  | c :: _ => c == '\n'

def carriage : Text → Bool
  | [] => false
  | c :: text => c == '\r' && breaks text

/-- What ends before one text ends before the other: it comes into sight alike, and ends a line where
the first does. -/
structure Alike (rest rest' : Text) : Prop where
  sight : sight rest = sight rest'
  breaks : breaks rest = true → breaks rest' = true
  carriage : carriage rest = true → carriage rest' = true

variable {c : Char} {text tail rest rest' : Text} {length : Nat} {quote : Char} {fence : Nat}

theorem sight_append (h : sight rest = sight rest') (front : Text) :
    sight (front ++ rest) = sight (front ++ rest') := by
  induction front with
  | nil => exact h
  | cons c front ih => simp only [List.cons_append, sight, ih]

theorem breaks_append (h : breaks rest = true → breaks rest' = true) (front : Text)
    (hfront : breaks (front ++ rest) = true) : breaks (front ++ rest') = true := by
  cases front with
  | nil => exact h hfront
  | cons c front => exact hfront

theorem carriage_append (hbreaks : breaks rest = true → breaks rest' = true)
    (hcarriage : carriage rest = true → carriage rest' = true) (front : Text)
    (hfront : carriage (front ++ rest) = true) : carriage (front ++ rest') = true := by
  cases front with
  | nil => exact hcarriage hfront
  | cons c front =>
      rw [List.cons_append, carriage, Bool.and_eq_true] at hfront ⊢
      exact ⟨hfront.1, breaks_append hbreaks front hfront.2⟩

theorem Alike.append (h : Alike rest rest') (front : Text) :
    Alike (front ++ rest) (front ++ rest') where
  sight := sight_append h.sight front
  breaks := breaks_append h.breaks front
  carriage := carriage_append h.breaks h.carriage front

theorem sight_of_isBlank (h : isBlank c = true) (text : Text) : sight (c :: text) = [] := by
  simp [sight, h]

theorem isIdentifierChar_of_isBlank (h : isBlank c = true) : isIdentifierChar c = false := by
  simp only [isBlank, Bool.or_eq_true, beq_iff_eq] at h
  rcases h with ((((rfl | rfl) | rfl) | rfl) | rfl) | rfl <;> decide

theorem isBlank_of_isIdentifierChar (h : isIdentifierChar c = true) : isBlank c = false := by
  rw [Bool.eq_false_iff]
  intro hblank
  rw [isIdentifierChar_of_isBlank hblank] at h
  exact absurd h (by decide)

theorem sight_of_isAlphanum (h : c.isAlphanum = true) (text : Text) :
    sight (c :: text) = ['a'] := by
  simp [sight, isBlank_of_isIdentifierChar (isIdentifierChar_of_isAlphanum h), h]

/-- Punctuation and quotes come into sight as they are, and nothing else takes their form. -/
theorem head?_sight (mark : Char) (text : Text) (hblank : isBlank mark = false)
    (hidentifier : isIdentifierChar mark = false) :
    ((sight text).head? == some mark) = (text.head? == some mark) := by
  have ha : ('a' == mark) = false := by
    rw [beq_eq_false_iff_ne]
    rintro rfl
    exact absurd hidentifier (by decide)
  have hb : ('\u0080' == mark) = false := by
    rw [beq_eq_false_iff_ne]
    rintro rfl
    exact absurd hidentifier (by decide)
  cases text with
  | nil => rfl
  | cons c text =>
      have hne : isBlank c = true ∨ isIdentifierChar c = true → (c == mark) = false := by
        rw [beq_eq_false_iff_ne]
        rintro h rfl
        rcases h with h | h
        · exact absurd h (by simp [hblank])
        · exact absurd h (by simp [hidentifier])
      simp only [sight]
      split
      · next h => simp [hne (.inl h)]
      split
      · next h =>
          have hc : isIdentifierChar c = true := by simp [isIdentifierChar, h]
          simp [ha, hne (.inr hc)]
      split
      · next h => simp [hb, hne (.inr h)]
      split <;> rfl

theorem any_isIdentifierChar_head?_sight :
    (sight text).head?.any isIdentifierChar = text.head?.any isIdentifierChar := by
  have ha : isIdentifierChar 'a' = true := by decide
  have hb : isIdentifierChar '\u0080' = true := by decide
  cases text with
  | nil => rfl
  | cons c text =>
      simp only [sight]
      split
      · next h => simp [isIdentifierChar_of_isBlank h]
      split
      · next h =>
          have hc : isIdentifierChar c = true := by simp [isIdentifierChar, h]
          simp [ha, hc]
      split
      · next h => simp [hb, h]
      split <;> rfl

theorem head?_eq_of_sight (mark : Char) (h : sight rest = sight rest')
    (hblank : isBlank mark = false) (hidentifier : isIdentifierChar mark = false) :
    (rest.head? == some mark) = (rest'.head? == some mark) := by
  rw [← head?_sight mark rest hblank hidentifier, h, head?_sight mark rest' hblank hidentifier]

theorem any_head?_eq_of_sight (h : sight rest = sight rest') :
    rest.head?.any isIdentifierChar = rest'.head?.any isIdentifierChar := by
  rw [← any_isIdentifierChar_head?_sight, h, any_isIdentifierChar_head?_sight]

theorem sight_dollar (text : Text) : sight ('$' :: text) = '$' :: sight text := rfl

theorem sight_at (text : Text) : sight ('@' :: text) = '@' :: sight text := rfl

theorem sight_quote (text : Text) : sight ('"' :: text) = '"' :: sight text := rfl

theorem dropWhile_sight :
    (((sight text).dropWhile (· == '$')).head? == some '"') =
      ((text.dropWhile (· == '$')).head? == some '"') := by
  induction text with
  | nil => rfl
  | cons c text ih =>
      by_cases hc : c = '$'
      · subst hc
        rw [sight_dollar]
        simpa using ih
      · have hhead : ((sight (c :: text)).head? == some '$') = false := by
          rw [head?_sight _ _ (by decide) (by decide)]
          simpa using hc
        have hsame : (sight (c :: text)).dropWhile (· == '$') = sight (c :: text) := by
          cases hsight : sight (c :: text) with
          | nil => rfl
          | cons d others =>
              rw [hsight] at hhead
              exact List.dropWhile_cons_of_neg (by simpa using hhead)
        have hkept : (c :: text).dropWhile (· == '$') = c :: text :=
          List.dropWhile_cons_of_neg (by simpa using hc)
        rw [hsame, hkept, head?_sight _ _ (by decide) (by decide)]

theorem opensMarkedString_at (text : Text) :
    opensMarkedString ('@' :: text) =
      (text.head? == some '"' || text.head? == some '$' && text.tail.head? == some '"') := by
  match text with
  | [] => rfl
  | [c] =>
      by_cases hc : c = '"'
      · subst hc; rfl
      · simp [opensMarkedString, hc]
  | c :: d :: text =>
      by_cases hc : c = '"'
      · subst hc; rfl
      · by_cases hd : c = '$' ∧ d = '"'
        · obtain ⟨rfl, rfl⟩ := hd
          rfl
        · simp [opensMarkedString, hc]
          grind

theorem opensMarkedString_dollar (text : Text) :
    opensMarkedString ('$' :: text) =
      (text.head? == some '@' && text.tail.head? == some '"' ||
        (text.dropWhile (· == '$')).head? == some '"') := by
  match text with
  | [] => rfl
  | [c] => by_cases hc : c = '@' <;> simp [opensMarkedString, hc]
  | c :: d :: text =>
      by_cases hc : c = '@' ∧ d = '"'
      · obtain ⟨rfl, rfl⟩ := hc
        rfl
      · rw [opensMarkedString.eq_4]
        · grind
        · grind

theorem head?_tail_sight {first second : Char} (hfirst : isBlank first = false)
    (hidentifier : isIdentifierChar first = false)
    (hnext : ∀ text, sight (first :: text) = first :: sight text)
    (hsecond : isBlank second = false) (hidentifier' : isIdentifierChar second = false) :
    ((sight text).head? == some first && (sight text).tail.head? == some second) =
      (text.head? == some first && text.tail.head? == some second) := by
  rw [head?_sight first text hfirst hidentifier]
  cases text with
  | nil => rfl
  | cons c text =>
      by_cases hc : c = first
      · subst hc
        simp [hnext, head?_sight second text hsecond hidentifier']
      · have hc' : (c == first) = false := by simpa using hc
        simp [hc']

theorem opensMarkedString_sight :
    opensMarkedString (c :: sight text) = opensMarkedString (c :: text) := by
  by_cases hat : c = '@'
  · subst hat
    rw [opensMarkedString_at, opensMarkedString_at, head?_sight _ _ (by decide) (by decide),
      head?_tail_sight (by decide) (by decide) sight_dollar (by decide) (by decide)]
  · by_cases hdollar : c = '$'
    · subst hdollar
      rw [opensMarkedString_dollar, opensMarkedString_dollar, dropWhile_sight,
        head?_tail_sight (by decide) (by decide) sight_at (by decide) (by decide)]
    · rw [opensMarkedString_of_ne hat hdollar, opensMarkedString_of_ne hat hdollar]

theorem opensMarkedString_congr (h : sight rest = sight rest') :
    opensMarkedString (c :: rest) = opensMarkedString (c :: rest') := by
  rw [← opensMarkedString_sight, h, opensMarkedString_sight]

theorem quoteRun_cons (c : Char) (text : Text) :
    quoteRun (c :: text) = if c = '"' then quoteRun text + 1 else 0 := by
  by_cases hc : c = '"' <;> simp [quoteRun, hc]

theorem quoteRun_sight : quoteRun (sight text) = quoteRun text := by
  induction text with
  | nil => rfl
  | cons c text ih =>
      by_cases hc : c = '"'
      · subst hc
        rw [sight_quote, quoteRun_cons, quoteRun_cons, ih]
      · have hhead : ((sight (c :: text)).head? == some '"') = false := by
          rw [head?_sight _ _ (by decide) (by decide)]
          simpa using hc
        rw [quoteRun_cons, if_neg hc]
        cases hsight : sight (c :: text) with
        | nil => rfl
        | cons d others =>
            rw [hsight] at hhead
            rw [quoteRun_cons, if_neg (by simpa using hhead)]

theorem quoteRun_congr (h : sight rest = sight rest') : quoteRun rest = quoteRun rest' := by
  rw [← quoteRun_sight, h, quoteRun_sight]

/-! Literals and comments that end inside a first part end there whatever follows. -/

theorem two_le_commentLength? (h : commentLength? text = some length) : 2 ≤ length := by
  fun_induction commentLength? text generalizing length with
  | case1 => cases h
  | case2 => cases h; exact Nat.le_refl 2
  | case3 c text _ ih =>
      obtain ⟨inner, hinner, rfl⟩ := Option.map_eq_some_iff.mp h
      have := ih hinner
      omega

theorem one_le_quotedLength? (h : quotedLength? quote text = some length) : 1 ≤ length := by
  fun_induction quotedLength? quote text generalizing length with
  | case1 => cases h
  | case2 => cases h
  | case3 => obtain ⟨inner, _, rfl⟩ := Option.map_eq_some_iff.mp h; omega
  | case4 => cases h; exact Nat.le_refl 1
  | case5 => cases h
  | case6 => obtain ⟨inner, _, rfl⟩ := Option.map_eq_some_iff.mp h; omega

theorem one_le_verbatimLength? (h : verbatimLength? text = some length) : 1 ≤ length := by
  fun_induction verbatimLength? text generalizing length with
  | case1 => cases h
  | case2 => obtain ⟨inner, _, rfl⟩ := Option.map_eq_some_iff.mp h; omega
  | case3 => cases h; exact Nat.le_refl 1
  | case4 => obtain ⟨inner, _, rfl⟩ := Option.map_eq_some_iff.mp h; omega

theorem fence_le_fencedLength? (h : fencedLength? fence text = some length) : fence ≤ length := by
  induction text generalizing length with
  | nil => cases h
  | cons c text ih =>
      rw [fencedLength?] at h
      split at h
      · next hle => cases h; exact hle
      · obtain ⟨inner, hinner, rfl⟩ := Option.map_eq_some_iff.mp h
        have := ih hinner
        omega

theorem commentLength?_append (h : commentLength? (tail ++ rest) = some length)
    (hle : length ≤ tail.length) : commentLength? (tail ++ rest') = some length := by
  induction tail generalizing length with
  | nil =>
      have := two_le_commentLength? h
      simp only [List.length_nil] at hle
      omega
  | cons c tail ih =>
      cases tail with
      | nil =>
          have := two_le_commentLength? h
          simp only [List.length_cons, List.length_nil] at hle
          omega
      | cons d tail =>
          by_cases hend : c = '*' ∧ d = '/'
          · obtain ⟨rfl, rfl⟩ := hend
            exact h
          · have hstep : ∀ text, commentLength? (c :: d :: text) =
                (commentLength? (d :: text)).map (· + 1) := by
              intro text
              rw [commentLength?.eq_3]
              grind
            simp only [List.cons_append, hstep] at h ⊢
            obtain ⟨inner, hinner, rfl⟩ := Option.map_eq_some_iff.mp h
            have hinner' := ih hinner (by simpa using hle)
            rw [List.cons_append] at hinner'
            rw [hinner', Option.map_some]

theorem quotedLength?_escape (c : Char) (text : Text) :
    quotedLength? quote ('\\' :: c :: text) = (quotedLength? quote text).map (· + 2) := rfl

theorem quotedLength?_cons (h : c ≠ '\\') (text : Text) :
    quotedLength? quote (c :: text) =
      if c = quote then some 1
      else if c = '\n' then none
      else (quotedLength? quote text).map (· + 1) := by
  rw [quotedLength?.eq_4]
  · exact fun hc => absurd hc h
  · exact fun _ _ hc => absurd hc h

theorem quotedLength?_append {tail : Text} {length : Nat}
    (h : quotedLength? quote (tail ++ rest) = some length) (hle : length ≤ tail.length) :
    quotedLength? quote (tail ++ rest') = some length := by
  match tail with
  | [] =>
      have := one_le_quotedLength? h
      simp only [List.length_nil] at hle
      omega
  | [c] =>
      by_cases hc : c = '\\'
      · subst hc
        cases rest with
        | nil => cases h
        | cons d rest =>
            rw [List.singleton_append, quotedLength?_escape] at h
            obtain ⟨inner, _, rfl⟩ := Option.map_eq_some_iff.mp h
            -- the escaped character would lie behind the tail
            simp only [List.length_cons, List.length_nil] at hle
            omega
      · rw [List.singleton_append, quotedLength?_cons hc] at h ⊢
        split at h
        · next hquote => rw [if_pos hquote, h]
        split at h
        · cases h
        obtain ⟨inner, hinner, rfl⟩ := Option.map_eq_some_iff.mp h
        have := one_le_quotedLength? hinner
        simp only [List.length_cons, List.length_nil] at hle
        omega
  | c :: d :: tail =>
      by_cases hc : c = '\\'
      · subst hc
        rw [List.cons_append, List.cons_append, quotedLength?_escape] at h ⊢
        obtain ⟨inner, hinner, rfl⟩ := Option.map_eq_some_iff.mp h
        rw [quotedLength?_append hinner (by simpa using hle), Option.map_some]
      · rw [List.cons_append, quotedLength?_cons hc] at h ⊢
        split at h
        · next hquote => rw [if_pos hquote, h]
        next hquote =>
          split at h
          · cases h
          next hfeed =>
            obtain ⟨inner, hinner, rfl⟩ := Option.map_eq_some_iff.mp h
            rw [if_neg hquote, if_neg hfeed,
              quotedLength?_append hinner (by simpa using hle), Option.map_some]

theorem verbatimLength?_doubled (text : Text) :
    verbatimLength? ('"' :: '"' :: text) = (verbatimLength? text).map (· + 2) := rfl

theorem verbatimLength?_closed (h : (text.head? == some '"') = false) :
    verbatimLength? ('"' :: text) = some 1 := by
  rw [verbatimLength?.eq_3]
  rintro text rfl
  simp at h

theorem verbatimLength?_cons (h : c ≠ '"') (text : Text) :
    verbatimLength? (c :: text) = (verbatimLength? text).map (· + 1) := by
  rw [verbatimLength?.eq_4]
  · exact fun _ hc => absurd hc h
  · exact fun hc => absurd hc h

theorem verbatimLength?_append {tail : Text} {length : Nat}
    (hhead : (rest.head? == some '"') = (rest'.head? == some '"'))
    (h : verbatimLength? (tail ++ rest) = some length) (hle : length ≤ tail.length) :
    verbatimLength? (tail ++ rest') = some length := by
  match tail with
  | [] =>
      have := one_le_verbatimLength? h
      simp only [List.length_nil] at hle
      omega
  | [c] =>
      rw [List.singleton_append] at h ⊢
      by_cases hc : c = '"'
      · subst hc
        -- only a quote at the end of the tail looks at what follows
        cases hrest : rest.head? == some '"' with
        | false =>
            rw [verbatimLength?_closed hrest] at h
            rw [verbatimLength?_closed (hhead ▸ hrest), h]
        | true =>
            obtain ⟨rest, rfl⟩ := List.head?_eq_some_iff.mp (beq_iff_eq.mp hrest)
            rw [verbatimLength?_doubled] at h
            obtain ⟨inner, _, rfl⟩ := Option.map_eq_some_iff.mp h
            simp only [List.length_cons, List.length_nil] at hle
            omega
      · rw [verbatimLength?_cons hc] at h
        obtain ⟨inner, hinner, rfl⟩ := Option.map_eq_some_iff.mp h
        have := one_le_verbatimLength? hinner
        simp only [List.length_cons, List.length_nil] at hle
        omega
  | c :: d :: tail =>
      by_cases hc : c = '"'
      · subst hc
        by_cases hd : d = '"'
        · subst hd
          rw [List.cons_append, List.cons_append, verbatimLength?_doubled] at h ⊢
          obtain ⟨inner, hinner, rfl⟩ := Option.map_eq_some_iff.mp h
          rw [verbatimLength?_append hhead hinner (by simpa using hle), Option.map_some]
        · have hnext : ∀ text : Text, ((d :: text).head? == some '"') = false := by simpa using hd
          rw [List.cons_append, List.cons_append, verbatimLength?_closed (hnext _)] at h ⊢
          exact h
      · rw [List.cons_append, verbatimLength?_cons hc] at h ⊢
        obtain ⟨inner, hinner, rfl⟩ := Option.map_eq_some_iff.mp h
        rw [verbatimLength?_append hhead hinner (by simpa using hle), Option.map_some]

theorem fencedLength?_append (hsight : sight rest = sight rest') (hfence : 1 ≤ fence)
    (h : fencedLength? fence (tail ++ rest) = some length) (hle : length ≤ tail.length) :
    fencedLength? fence (tail ++ rest') = some length := by
  induction tail generalizing length with
  | nil =>
      have := fence_le_fencedLength? h
      simp only [List.length_nil] at hle
      omega
  | cons c tail ih =>
      have hrun : quoteRun (c :: (tail ++ rest)) = quoteRun (c :: (tail ++ rest')) :=
        quoteRun_congr (sight_append hsight (c :: tail))
      rw [List.cons_append, fencedLength?] at h ⊢
      simp only [hrun] at h ⊢
      split at h
      · next hclosed => rw [if_pos hclosed, h]
      next hopen =>
        obtain ⟨inner, hinner, rfl⟩ := Option.map_eq_some_iff.mp h
        rw [if_neg hopen, ih hinner (by simpa using hle), Option.map_some]

theorem stringLength_append (hsight : sight rest = sight rest') (hne : tail ≠ [])
    (h : stringLength (tail ++ rest) = .ok length) (hle : length ≤ tail.length) :
    stringLength (tail ++ rest') = .ok length := by
  -- the run of quotes is in sight to its end, so both texts open in the same way
  have hrun : quoteRun (tail ++ rest) = quoteRun (tail ++ rest') :=
    quoteRun_congr (sight_append hsight tail)
  have hpos := List.length_pos_iff.mpr hne
  unfold stringLength at h ⊢
  simp only [hrun] at h ⊢
  split at h
  · next hraw =>
      split at h
      · next inner hinner =>
          cases h
          have hdrop : ∀ text, List.drop (quoteRun (tail ++ rest')) (tail ++ text) =
              tail.drop (quoteRun (tail ++ rest')) ++ text := by
            intro text
            exact List.drop_append_of_le_length (by omega)
          rw [hdrop] at hinner ⊢
          have hinner' := fencedLength?_append hsight (by omega) hinner (by
            rw [List.length_drop]
            omega)
          rw [if_pos hraw, hinner']
      · cases h
  · next hplain =>
      split at h
      · next inner hinner =>
          cases h
          have hdrop : ∀ text, List.drop 1 (tail ++ text) = tail.drop 1 ++ text := by
            intro text
            exact List.drop_append_of_le_length hpos
          rw [hdrop] at hinner ⊢
          have hinner' : quotedLength? '"' (tail.drop 1 ++ rest') = some inner :=
            quotedLength?_append hinner (by
              rw [List.length_drop]
              omega)
          rw [if_neg hplain, hinner']
      · cases h

theorem markedStringLength_append {marks : Text} (hmarks : marks.all isMark) (text : Text) :
    markedStringLength (marks ++ '"' :: text) =
      if marks.contains '@' then
        match verbatimLength? text with
        | some length => .ok (marks.length + 1 + length)
        | none => .error .verbatimString
      else
        match stringLength ('"' :: text) with
        | .ok length => .ok (marks.length + length)
        | .error fault => .error fault := by
  have hlength := markedStringLength_eq (marks ++ '"' :: text)
  simp only [takeWhile_isMark hmarks, List.drop_left, List.drop_succ_cons, List.drop_zero] at hlength
  exact hlength

/-- A marked string takes its marks and the quote behind them. -/
theorem marks_length_lt_of_markedStringLength {marks after : Text} (hmarks : marks.all isMark)
    (h : markedStringLength (marks ++ '"' :: after) = .ok length) : marks.length < length := by
  rw [markedStringLength_append hmarks] at h
  split at h
  · split at h
    · cases h; omega
    · cases h
  · split at h
    · next inner hinner =>
        cases h
        have := stringLength_le hinner (List.cons_ne_nil _ _)
        omega
    · cases h

theorem markedStringLength_swap (hsight : sight rest = sight rest')
    (hopens : opensMarkedString (tail ++ rest) = true)
    (h : markedStringLength (tail ++ rest) = .ok length) (hle : length ≤ tail.length) :
    markedStringLength (tail ++ rest') = .ok length := by
  obtain ⟨marks, after, _, hmarks, htext⟩ := exists_marks_of_opens hopens
  have hlonger := marks_length_lt_of_markedStringLength hmarks (htext ▸ h)
  -- what is taken goes beyond the quote, so that the quote is in front of the rest
  obtain ⟨inside, rfl, rfl⟩ : ∃ inside, tail = marks ++ '"' :: inside ∧ after = inside ++ rest := by
    have htext' : tail ++ rest = (marks ++ ['"']) ++ after := by simpa using htext
    rcases List.append_eq_append_iff.mp htext' with ⟨between, hmark, hrest⟩ | ⟨between, hmark, hafter⟩
    · have hlength := congrArg List.length hmark
      simp only [List.length_append, List.length_cons, List.length_nil] at hlength
      have hempty : between = [] := List.eq_nil_of_length_eq_zero (by omega)
      subst hempty
      exact ⟨[], by simpa using hmark.symm, by simpa using hrest.symm⟩
    · exact ⟨between, by simpa using hmark, hafter⟩
  have hassoc : ∀ text, marks ++ '"' :: inside ++ text = marks ++ '"' :: (inside ++ text) := by
    intro text
    simp
  have hinside : length ≤ marks.length + 1 + inside.length := by
    simpa [Nat.add_comm, Nat.add_left_comm, Nat.add_assoc] using hle
  rw [hassoc, markedStringLength_append hmarks] at h ⊢
  split at h
  · next hverbatim =>
      rw [if_pos hverbatim]
      split at h
      · next inner hinner =>
          cases h
          have hquote := head?_eq_of_sight '"' hsight (by decide) (by decide)
          rw [verbatimLength?_append hquote hinner (by omega)]
      · cases h
  · next hplain =>
      rw [if_neg hplain]
      split at h
      · next inner hinner =>
          cases h
          have hinner' : stringLength (('"' :: inside) ++ rest') = .ok inner :=
            stringLength_append hsight (List.cons_ne_nil _ _) hinner (by
              rw [List.length_cons]
              omega)
          rw [List.cons_append] at hinner'
          rw [hinner']
      · cases h

theorem numberLength_range (text : Text) : numberLength ('.' :: '.' :: text) = 0 := rfl

theorem numberLength_cons (h : ¬(c = '.' ∧ text.head? = some '.')) :
    numberLength (c :: text) =
      if c.isAlphanum || c == '_' || c == '.' then numberLength text + 1 else 0 := by
  rw [numberLength.eq_3]
  rintro text rfl rfl
  exact h ⟨rfl, rfl⟩

theorem numberLength_sight : numberLength (sight text) = 0 ↔ numberLength text = 0 := by
  cases text with
  | nil => exact Iff.rfl
  | cons c text =>
      by_cases hdot : c = '.'
      · subst hdot
        have hsight : sight ('.' :: text) = '.' :: sight text := rfl
        -- a dot looks at the next character only for another dot
        have hhead := head?_sight '.' text (by decide) (by decide)
        rw [Bool.eq_iff_iff, beq_iff_eq, beq_iff_eq] at hhead
        rw [hsight]
        by_cases hrange : text.head? = some '.'
        · obtain ⟨others, hothers⟩ := List.head?_eq_some_iff.mp (hhead.mpr hrange)
          obtain ⟨text, rfl⟩ := List.head?_eq_some_iff.mp hrange
          rw [hothers, numberLength_range, numberLength_range]
        · rw [numberLength_cons (fun h => hrange (hhead.mp h.2)),
            numberLength_cons (fun h => hrange h.2)]
          simp
      · have hsingle : ∀ text : Text, ¬(c = '.' ∧ text.head? = some '.') := fun _ h => hdot h.1
        -- what is no dot, letter, digit or underscore begins no number, however it goes on
        have hsingle' : c.isAlphanum = false → c ≠ '_' → numberLength (c :: text) = 0 := by
          intro halpha hline
          rw [numberLength_cons (hsingle text)]
          simp [halpha, hline, hdot]
        simp only [sight]
        split
        · next hblank =>
            have hidentifier := isIdentifierChar_of_isBlank hblank
            simp only [isIdentifierChar, Bool.or_eq_false_iff, beq_eq_false_iff_ne] at hidentifier
            rw [hsingle' hidentifier.1.1 hidentifier.1.2]
            exact Iff.rfl
        split
        · next hword =>
            rw [numberLength_cons (hsingle text), if_pos (by simp [hword])]
            simp [show numberLength ['a'] = 1 by decide]
        next hword =>
          simp only [Bool.or_eq_true, beq_iff_eq, not_or, Bool.not_eq_true] at hword
          rw [hsingle' hword.1 hword.2]
          split
          · simp [show numberLength ['\u0080'] = 0 by decide]
          split
          · rw [numberLength_cons fun h => hdot h.1, if_neg (by simp [hword, hdot])]
          · rw [numberLength_cons fun h => hdot h.1, if_neg (by simp [hword, hdot])]

theorem numberLength_append (hsight : sight rest = sight rest')
    (h : numberLength (tail ++ rest) = tail.length) :
    numberLength (tail ++ rest') = tail.length := by
  induction tail with
  | nil =>
      have hsight' : numberLength (sight rest) = 0 := numberLength_sight.mpr h
      rw [hsight] at hsight'
      exact numberLength_sight.mp hsight'
  | cons c tail ih =>
      have hhead : (tail ++ rest).head? = some '.' ↔ (tail ++ rest').head? = some '.' := by
        have := head?_eq_of_sight '.' (sight_append hsight tail) (by decide) (by decide)
        rwa [Bool.eq_iff_iff, beq_iff_eq, beq_iff_eq] at this
      rw [List.cons_append] at h ⊢
      by_cases hrange : c = '.' ∧ (tail ++ rest).head? = some '.'
      · obtain ⟨rfl, hdot⟩ := hrange
        obtain ⟨text, htext⟩ := List.head?_eq_some_iff.mp hdot
        rw [htext, numberLength_range] at h
        cases h
      · rw [numberLength_cons hrange] at h
        rw [numberLength_cons (by rwa [← hhead])]
        split at h
        · next hnumber =>
            rw [if_pos hnumber, ih (by simpa using h), List.length_cons]
        · cases h

theorem identifierLength_append (hsight : sight rest = sight rest')
    (h : identifierLength (tail ++ rest) = tail.length) :
    identifierLength (tail ++ rest') = tail.length := by
  induction tail with
  | nil =>
      have hany := any_head?_eq_of_sight hsight
      cases rest' with
      | nil => rfl
      | cons c rest' =>
          cases rest with
          | nil =>
              have hc : isIdentifierChar c = false := by simpa using hany.symm
              simp [identifierLength, hc]
          | cons d rest =>
              have hd : isIdentifierChar d = false := by
                rw [Bool.eq_false_iff]
                intro hd
                simp [identifierLength, hd] at h
              have hc : isIdentifierChar c = false := by simpa [hd] using hany.symm
              simp [identifierLength, hc]
  | cons c tail ih =>
      by_cases hc : isIdentifierChar c = true
      · simp only [identifierLength, List.cons_append, List.takeWhile_cons, hc, if_true,
          List.length_cons, Nat.add_right_cancel_iff] at h ⊢
        exact ih h
      · simp [identifierLength, hc] at h

/-- A mark that stands for itself does so before everything that looks the same. -/
theorem Alone.congr {lineStart : Bool} (h : Alone lineStart c rest) (hsight : sight rest = sight rest') :
    Alone lineStart c rest' := by
  have hhead : ∀ mark, isBlank mark = false → isIdentifierChar mark = false →
      rest'.head? = some mark → rest.head? = some mark := fun mark hblank hword hmark => by
    rwa [← beq_iff_eq, head?_eq_of_sight mark hsight hblank hword, beq_iff_eq]
  exact
    { h with
      noLineComment := fun ⟨hc, hnext⟩ =>
        h.noLineComment ⟨hc, hhead '/' (by decide) (by decide) hnext⟩
      noBlockComment := fun ⟨hc, hnext⟩ =>
        h.noBlockComment ⟨hc, hhead '*' (by decide) (by decide) hnext⟩
      noMarks := opensMarkedString_congr hsight ▸ h.noMarks
      noEscape := any_head?_eq_of_sight hsight ▸ h.noEscape
      noColon := fun ⟨hc, hnext⟩ => h.noColon ⟨hc, hhead ':' (by decide) (by decide) hnext⟩ }

/-- A token inside a line is taken whatever follows, as long as it looks the same. -/
theorem head_append {lineStart : Bool} {kind : TokenKind} (hkind : kind.isLine = false)
    (hsight : sight rest = sight rest')
    (h : head lineStart c (tail ++ rest) = .ok (kind, tail.length)) :
    head lineStart c (tail ++ rest') = .ok (kind, tail.length) := by
  have hfollow := sight_append hsight tail
  have hhead : ∀ mark, isBlank mark = false → isIdentifierChar mark = false →
      (tail ++ rest).head? = some mark → (tail ++ rest').head? = some mark :=
    fun mark hblank hword hmark => by
      rwa [← beq_iff_eq, ← head?_eq_of_sight mark hfollow hblank hword, beq_iff_eq]
  generalize hlength : tail.length = length at h
  rw [head_eq_ok_iff]
  cases head_eq_ok_iff.mp h with
  | preprocessor => cases hkind
  | lineComment => cases hkind
  | blockComment hslash hstar hinner =>
      have hlong : 1 ≤ tail.length := by omega
      refine .blockComment hslash (hhead '*' (by decide) (by decide) hstar) ?_
      rw [List.drop_append_of_le_length hlong] at hinner ⊢
      exact commentLength?_append hinner (by rw [List.length_drop]; omega)
  | string hquote hwhole =>
      have hbounds := stringLength_le hwhole (List.cons_ne_nil _ _)
      have hwhole' : stringLength ((c :: tail) ++ rest') = .ok _ :=
        stringLength_append hsight (List.cons_ne_nil _ _) hwhole (by rw [List.length_cons]; omega)
      exact .string hquote hwhole'
  | marked hopens hwhole =>
      have hbounds := markedStringLength_le hwhole hopens
      have hwhole' : markedStringLength ((c :: tail) ++ rest') = .ok _ :=
        markedStringLength_swap hsight hopens hwhole (by rw [List.length_cons]; omega)
      exact .marked (opensMarkedString_congr hfollow ▸ hopens) hwhole'
  | character hquote hquoted => exact .character hquote (quotedLength?_append hquoted (by omega))
  | number hdigit =>
      rw [← hlength, ← numberLength_append hsight hlength.symm]
      exact .number hdigit
  | identifier hdigit hword =>
      rw [← hlength, ← identifierLength_append hsight hlength.symm]
      exact .identifier hdigit (any_head?_eq_of_sight hfollow ▸ hword)
  | doubleColon hcolon hnext =>
      exact .doubleColon hcolon (hhead ':' (by decide) (by decide) hnext)
  | punctuation halone => exact .punctuation (halone.congr hfollow)

/-! Tokens that run to the end of their line. -/

theorem exists_line (text : Text) :
    ∃ line after, text = line ++ after ∧ '\n' ∉ line ∧ breaks after = true := by
  induction text with
  | nil => exact ⟨[], [], rfl, by simp, rfl⟩
  | cons c text ih =>
      by_cases hc : c = '\n'
      · exact ⟨[], c :: text, rfl, by simp, by simp [breaks, hc]⟩
      · obtain ⟨line, after, rfl, hline, hafter⟩ := ih
        refine ⟨c :: line, after, rfl, ?_, hafter⟩
        rw [List.mem_cons, not_or]
        exact ⟨fun h => hc h.symm, hline⟩

theorem lineLength_append {line after : Text} (hline : '\n' ∉ line) (hafter : breaks after = true) :
    lineLength (line ++ after) =
      if line.getLast? = some '\r' then line.length - 1 else line.length := by
  have htake : (line ++ after).takeWhile (· ≠ '\n') = line := by
    rw [List.takeWhile_append_of_pos fun c hc => by
      rw [decide_eq_true_eq]
      rintro rfl
      exact hline hc]
    cases after with
    | nil => simp
    | cons c after =>
        have hc : c = '\n' := by simpa [breaks] using hafter
        simp [hc]
  unfold lineLength
  rw [htake]

/-- A token takes its whole line but a carriage return at the end. -/
theorem lineLength_eq_iff :
    lineLength (tail ++ rest) = tail.length ↔
      '\n' ∉ tail ∧
        (breaks rest = true ∧ tail.getLast? ≠ some '\r' ∨ carriage rest = true) := by
  constructor
  · intro h
    obtain ⟨line, after, htext, hline, hafter⟩ := exists_line (tail ++ rest)
    rw [htext, lineLength_append hline hafter] at h
    split at h
    · next hlast =>
        obtain ⟨content, rfl⟩ := List.getLast?_eq_some_iff.mp hlast
        rw [List.length_append, List.length_singleton, Nat.add_sub_cancel, List.append_assoc] at *
        obtain ⟨rfl, rfl⟩ := List.append_inj htext h.symm
        exact ⟨fun hmem => hline (List.mem_append_left _ hmem), .inr (by simpa [carriage])⟩
    · next hlast =>
        obtain ⟨rfl, rfl⟩ := List.append_inj htext h.symm
        exact ⟨hline, .inl ⟨hafter, hlast⟩⟩
  · rintro ⟨htail, ⟨hbreaks, hlast⟩ | hcarriage⟩
    · rw [lineLength_append htail hbreaks, if_neg hlast]
    · cases rest with
      | nil => cases hcarriage
      | cons c rest =>
          obtain ⟨rfl, hbreaks⟩ : c = '\r' ∧ breaks rest = true := by
            simpa [carriage] using hcarriage
          have hline : '\n' ∉ tail ++ ['\r'] := by simpa using htail
          have hcut : tail ++ '\r' :: rest = (tail ++ ['\r']) ++ rest := by simp
          rw [hcut, lineLength_append hline hbreaks]
          simp

/-- Whether a token of a kind that runs to the end of its line begins at `c`. -/
def opensLine (lineStart : Bool) (kind : TokenKind) (c : Char) (text : Text) : Prop :=
  kind = .preprocessor ∧ c = '#' ∧ lineStart = true ∨
    kind = .lineComment ∧ c = '/' ∧ text.head? = some '/'

theorem head_eq_line_iff {lineStart : Bool} {kind : TokenKind} (hkind : kind.isLine = true) :
    head lineStart c text = .ok (kind, length) ↔
      opensLine lineStart kind c text ∧ lineLength text = length := by
  rw [head_eq_ok_iff]
  constructor
  · intro h
    cases h with
    | preprocessor hhash hstart => exact ⟨.inl ⟨rfl, hhash, hstart⟩, rfl⟩
    | lineComment hslash hnext => exact ⟨.inr ⟨rfl, hslash, hnext⟩, rfl⟩
    | _ => cases hkind
  · rintro ⟨⟨rfl, hhash, hstart⟩ | ⟨rfl, hslash, hnext⟩, rfl⟩
    · exact .preprocessor hhash hstart
    · exact .lineComment hslash hnext

theorem Takes.congr {lineStart : Bool} {kind : TokenKind} {lexeme : Text}
    (h : Takes lineStart kind lexeme rest) (halike : Alike rest rest') :
    Takes lineStart kind lexeme rest' := by
  obtain ⟨c, tail, rfl, hblank, hhead⟩ := h
  refine ⟨c, tail, rfl, hblank, ?_⟩
  cases hkind : kind.isLine with
  | false => exact head_append hkind halike.sight hhead
  | true =>
      rw [head_eq_line_iff hkind, lineLength_eq_iff] at hhead ⊢
      obtain ⟨hopens, hfeed, hend⟩ := hhead
      have hslash := head?_eq_of_sight '/' (sight_append halike.sight tail)
        (by decide) (by decide)
      rw [Bool.eq_iff_iff, beq_iff_eq, beq_iff_eq] at hslash
      refine ⟨?_, hfeed, hend.imp (And.imp_left halike.breaks) halike.carriage⟩
      rwa [opensLine, ← hslash]

end Scan

namespace Piece

/-- Pieces are scanned in the same way in front of texts that tokens cannot tell apart. -/
theorem Scanned.congr {rest rest' : Text} {lineStart : Bool} {pieces : List Piece}
    (h : Scanned rest lineStart pieces) (halike : Scan.Alike rest rest') :
    Scanned rest' lineStart pieces := by
  induction pieces generalizing lineStart with
  | nil => trivial
  | cons piece pieces ih =>
      cases piece with
      | blank c => exact ⟨h.1, ih h.2⟩
      | token kind lexeme => exact ⟨h.1.congr (halike.append (spell pieces)), ih h.2⟩

end Piece

end CSharpTidy
