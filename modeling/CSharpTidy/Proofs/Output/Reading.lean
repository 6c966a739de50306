import Mathlib.Data.List.Basic
import CSharpTidy.Output.JsonValue

/-!
# Reading JSON back

A reader of JSON that knows nothing of how values are rendered. It cuts a text into lexemes, each
decided by the characters in hand, and puts these together on a stack of the arrays and objects that
are open. What it reads is one value and nothing behind it, and a rendered value is read back as it
was.
-/

namespace CSharpTidy

namespace JsonValue

/-! ## Lexemes -/

/-- A mark of the notation, or a value that has no parts. -/
inductive Lexeme where
  | mark (c : Char)
  | leaf (value : JsonValue)

/-- What a reader of characters is in the middle of. Letters are kept last one first. -/
inductive Scanning where
  | between
  | word (letters : List Char)
  | text (letters : List Char)
  | escape (letters : List Char)
  | code (letters digits : List Char)

def isMark (c : Char) : Bool := ['[', ']', '\x7b', '\x7d', ',', ':'].contains c

def isBlank (c : Char) : Bool := [' ', '\n', '\r', '\t'].contains c

/-- The value of a word without quotes. A number is written in decimal with no zeros in front. -/
def leaf? (word : List Char) : Option JsonValue :=
  if word = "null".toList then some null
  else if word = "true".toList then some (bool true)
  else if word = "false".toList then some (bool false)
  else
    let value := Nat.ofDigitChars 10 word 0
    if word = Nat.toDigits 10 value then some (number value) else none

/-- The character that a backslash and another one stand for. -/
def escaped? (c : Char) : Option Char :=
  [('"', '"'), ('\\', '\\'), ('/', '/'), ('n', '\n'), ('r', '\r'), ('t', '\t'), ('b', '\x08'),
    ('f', '\x0c')].lookup c

def hexValue? (c : Char) : Option Nat :=
  if c.isDigit then some (c.toNat - '0'.toNat)
  else if 'a' ≤ c ∧ c ≤ 'f' then some (c.toNat - 'a'.toNat + 10)
  else if 'A' ≤ c ∧ c ≤ 'F' then some (c.toNat - 'A'.toNat + 10)
  else none

/-- The character with a code of four digits, last one first. -/
def coded? (digits : List Char) : Option Char := do
  let values ← digits.reverse.mapM hexValue?
  let code := values.foldl (fun code value => 16 * code + value) 0
  if code.isValidChar then some (Char.ofNat code) else none

def lexemes : Scanning → List Char → Option (List Lexeme)
  | .between, [] => some []
  | .word letters, [] => (leaf? letters.reverse).map fun value => [.leaf value]
  | _, [] => none
  | .between, c :: rest =>
      if isBlank c then lexemes .between rest
      else if isMark c then (lexemes .between rest).map (.mark c :: ·)
      else if c = '"' then lexemes (.text []) rest
      else lexemes (.word [c]) rest
  | .word letters, c :: rest =>
      if isBlank c then
        (leaf? letters.reverse).bind fun value => (lexemes .between rest).map (.leaf value :: ·)
      else if isMark c then
        (leaf? letters.reverse).bind fun value =>
          (lexemes .between rest).map fun others => .leaf value :: .mark c :: others
      else lexemes (.word (c :: letters)) rest
  | .text letters, c :: rest =>
      if c = '"' then
        (lexemes .between rest).map (.leaf (.string (String.ofList letters.reverse)) :: ·)
      else if c = '\\' then lexemes (.escape letters) rest
      else if c.toNat < 0x20 then none
      else lexemes (.text (c :: letters)) rest
  | .escape letters, c :: rest =>
      if c = 'u' then lexemes (.code letters []) rest
      else (escaped? c).bind fun meant => lexemes (.text (meant :: letters)) rest
  | .code letters digits, c :: rest =>
      if digits.length < 3 then lexemes (.code letters (c :: digits)) rest
      else (coded? (c :: digits)).bind fun meant => lexemes (.text (meant :: letters)) rest

/-! ## Values -/

/-- An array or object that is open, with what it holds so far. An object that waits for a value has
the name for it. -/
inductive Frame where
  | array (items : List JsonValue)
  | object (members : List (String × JsonValue)) (name : String)

/-- What has to come next, inside the frames that are open. -/
inductive Expecting where
  | value (frames : List Frame)
  | firstItem (frames : List Frame)
  | firstName (frames : List Frame)
  | name (frames : List Frame) (members : List (String × JsonValue))
  | colon (frames : List Frame) (members : List (String × JsonValue)) (name : String)
  | continuation (frames : List Frame) (value : JsonValue)

/-- Takes the first lexeme of a value. -/
def takeValue (frames : List Frame) : Lexeme → Option Expecting
  | .leaf value => some (.continuation frames value)
  | .mark '[' => some (.firstItem frames)
  | .mark '\x7b' => some (.firstName frames)
  | .mark _ => none

def takeName (frames : List Frame) (members : List (String × JsonValue)) :
    Lexeme → Option Expecting
  | .leaf (.string name) => some (.colon frames members name)
  | _ => none

/-- Takes what follows a value. -/
def takeContinuation (value : JsonValue) : List Frame → Char → Option Expecting
  | .array items :: frames, ',' => some (.value (.array (items ++ [value]) :: frames))
  | .array items :: frames, ']' => some (.continuation frames (.array (items ++ [value])))
  | .object members name :: frames, ',' => some (.name frames (members ++ [(name, value)]))
  | .object members name :: frames, '\x7d' =>
      some (.continuation frames (.object (members ++ [(name, value)])))
  | _, _ => none

def Expecting.take : Expecting → Lexeme → Option Expecting
  | .value frames, lexeme => takeValue frames lexeme
  | .firstItem frames, .mark ']' => some (.continuation frames (.array []))
  | .firstItem frames, lexeme => takeValue (.array [] :: frames) lexeme
  | .firstName frames, .mark '\x7d' => some (.continuation frames (.object []))
  | .firstName frames, lexeme => takeName frames [] lexeme
  | .name frames members, lexeme => takeName frames members lexeme
  | .colon frames members label, .mark ':' => some (.value (.object members label :: frames))
  | .continuation frames found, .mark c => takeContinuation found frames c
  | _, _ => none

def Expecting.value? : Expecting → Option JsonValue
  | .continuation [] found => some found
  | _ => none

/-- Reads a text that is one value and no more than that. -/
def read? (text : String) : Option JsonValue := do
  let found ← lexemes .between text.toList
  let last ← found.foldlM Expecting.take (.value [])
  last.value?

example : (read? "[1, \x7b\"a\" : \"\\u0041\\n\"\x7d ]\n").map (render 0) =
    some "[\n  1,\n  \x7b\n    \"a\": \"A\\n\"\n  \x7d\n]" := by decide +kernel

/-! ## Rendered values in lexemes -/

variable {c : Char} {rest word letters : List Char} {value : JsonValue} {frames : List Frame}
  {depth : Nat}

/-- What follows a value ends the word that it may be. -/
def Ends (rest : List Char) : Prop := ∀ c ∈ rest.head?, isBlank c = true ∨ isMark c = true

theorem ends_margin (depth : Nat) (rest : List Char) : Ends ((margin depth).toList ++ rest) := by
  intro c hc
  rw [margin, String.toList_append] at hc
  obtain rfl : '\n' = c := Option.some.inj hc
  exact .inl rfl

theorem ends_mark (h : isMark c = true) (rest : List Char) : Ends (c :: rest) := by
  intro d hd
  obtain rfl := Option.some.inj hd
  exact .inr h

theorem not_isBlank_of_isMark (h : isMark c = true) : isBlank c = false := by
  have hmarks : ['[', ']', '\x7b', '\x7d', ',', ':'].all (fun mark => !isBlank mark) = true := by decide
  simpa using List.all_eq_true.mp hmarks c (List.contains_iff_mem.mp h)

theorem lexemes_mark (h : isMark c = true) (rest : List Char) :
    lexemes .between (c :: rest) = (lexemes .between rest).map (.mark c :: ·) := by
  rw [lexemes, not_isBlank_of_isMark h, h]
  rfl

theorem lexemes_margin (depth : Nat) (rest : List Char) :
    lexemes .between ((margin depth).toList ++ rest) = lexemes .between rest := by
  have hline : (margin depth).toList = '\n' :: List.replicate (2 * depth) ' ' := by
    simp [margin]
  rw [hline, List.cons_append]
  change lexemes .between (List.replicate (2 * depth) ' ' ++ rest) = _
  induction 2 * depth with
  | zero => rfl
  | succ blanks ih => exact ih

theorem lexemes_word_append (hword : ∀ c ∈ word, isBlank c = false ∧ isMark c = false)
    (hends : Ends rest) (letters : List Char) :
    lexemes (.word letters) (word ++ rest) =
      (leaf? (letters.reverse ++ word)).bind fun value =>
        (lexemes .between rest).map (.leaf value :: ·) := by
  induction word generalizing letters with
  | nil =>
      rw [List.nil_append, List.append_nil]
      cases rest with
      | nil =>
          rw [lexemes, lexemes]
          cases leaf? letters.reverse <;> rfl
      | cons c rest =>
          rcases hends c rfl with hblank | hmark
          · rw [lexemes, lexemes, if_pos hblank, if_pos hblank]
          · rw [lexemes_mark hmark, lexemes, not_isBlank_of_isMark hmark, hmark]
            simp only [Option.map_map]
            rfl
  | cons c word ih =>
      obtain ⟨hblank, hmark⟩ := hword c List.mem_cons_self
      rw [List.cons_append, lexemes, hblank, hmark]
      simpa using ih (fun d hd => hword d (List.mem_cons_of_mem _ hd)) (c :: letters)

/-- A character of a word, which neither ends it nor opens a text. -/
def isInner (c : Char) : Bool := !isBlank c && !isMark c && c != '"'

theorem isInner_iff : isInner c = true ↔ isBlank c = false ∧ isMark c = false ∧ c ≠ '"' := by
  simp [isInner, and_assoc]

theorem lexemes_leaf (hword : word.all isInner = true)
    (hleaf : leaf? word = some value) (hne : word ≠ []) (hends : Ends rest) :
    lexemes .between (word ++ rest) = (lexemes .between rest).map (.leaf value :: ·) := by
  obtain ⟨c, word, rfl⟩ := List.exists_cons_of_ne_nil hne
  have hinner := fun d hd => isInner_iff.mp (List.all_eq_true.mp hword d hd)
  obtain ⟨hblank, hmark, hquote⟩ := hinner c List.mem_cons_self
  have hothers : ∀ d ∈ word, isBlank d = false ∧ isMark d = false := by
    intro d hd
    obtain ⟨hblank, hmark, -⟩ := hinner d (List.mem_cons_of_mem c hd)
    exact ⟨hblank, hmark⟩
  have hrest := lexemes_word_append hothers hends [c]
  rw [List.cons_append, lexemes, hblank, hmark, if_neg (by simp), if_neg (by simp), if_neg hquote, hrest]
  change (leaf? (c :: word)).bind _ = _
  rw [hleaf, Option.bind_some]

theorem leaf?_digits (n : Nat) : leaf? (Nat.toDigits 10 n) = some (number n) := by
  have hdigits : ∀ c ∈ Nat.toDigits 10 n, c.isDigit = true := fun c hc =>
    Nat.isDigit_of_mem_toDigits (by decide) (by decide) hc
  have hne : ∀ word : List Char, (∃ c ∈ word, c.isDigit = false) → Nat.toDigits 10 n ≠ word := by
    rintro word ⟨c, hmem, hc⟩ rfl
    rw [hdigits c hmem] at hc
    cases hc
  rw [leaf?, if_neg (hne _ ⟨'n', by decide, by decide⟩), if_neg (hne _ ⟨'t', by decide, by decide⟩),
    if_neg (hne _ ⟨'f', by decide, by decide⟩), Nat.ofDigitChars_toDigits (by decide) (by decide),
    if_pos rfl]

/-! ### Strings -/

theorem coded?_hexDigit (h : c.toNat < 0x20) :
    coded? [hexDigit (c.toNat % 16), hexDigit (c.toNat / 16), '0', '0'] = some c := by
  have hall : ∀ code < 0x20,
      coded? [hexDigit (code % 16), hexDigit (code / 16), '0', '0'] = some (Char.ofNat code) := by
    decide
  rw [hall c.toNat h, Char.ofNat_toNat]

/-- A character of a string is read as itself, escaped or not. -/
theorem lexemes_escape (c : Char) (letters rest : List Char) :
    lexemes (.text letters) (escape c ++ rest) = lexemes (.text (c :: letters)) rest := by
  unfold escape
  split
  · next h => rw [h]; rfl
  split
  · next h => rw [h]; rfl
  split
  · next h => rw [h]; rfl
  split
  · next h => rw [h]; rfl
  split
  · next h => rw [h]; rfl
  split
  · next h => rw [h]; rfl
  split
  · next h => rw [h]; rfl
  split
  · next hcontrol =>
      have hcode := coded?_hexDigit hcontrol
      change (coded? [hexDigit (c.toNat % 16), hexDigit (c.toNat / 16), '0', '0']).bind _ = _
      rw [hcode, Option.bind_some]
      rfl
  · next hquote hslash _ _ _ _ _ hcontrol =>
      rw [List.singleton_append, lexemes, if_neg hquote, if_neg hslash, if_neg hcontrol]

theorem lexemes_quote (text : String) (rest : List Char) :
    lexemes .between ((quote text).toList ++ rest) =
      (lexemes .between rest).map (.leaf (.string text) :: ·) := by
  have hletters : ∀ letters taken : List Char,
      lexemes (.text taken) (letters.flatMap escape ++ '"' :: rest) =
        (lexemes .between rest).map
          (.leaf (.string (String.ofList (taken.reverse ++ letters))) :: ·) := by
    intro letters
    induction letters with
    | nil =>
        intro taken
        rw [List.append_nil]
        rfl
    | cons c letters ih =>
        intro taken
        rw [List.flatMap_cons, List.append_assoc, lexemes_escape, ih, List.reverse_cons,
          List.append_assoc, List.singleton_append]
  have hquote : (quote text).toList ++ rest = '"' :: (text.toList.flatMap escape ++ '"' :: rest) := by
    rw [quote, String.toList_append, String.toList_append, String.toList_ofList]
    simp
  rw [hquote]
  have htext := hletters text.toList []
  rw [List.reverse_nil, List.nil_append, String.ofList_toList] at htext
  exact htext

/-! ### Whole values -/

mutual

def spelled : JsonValue → List Lexeme
  | array [] => [.mark '[', .mark ']']
  | array (item :: items) =>
      .mark '[' :: (spelled item ++ (spelledItems items ++ [.mark ']']))
  | object [] => [.mark '\x7b', .mark '\x7d']
  | object ((name, value) :: members) =>
      .mark '\x7b' :: .leaf (.string name) :: .mark ':' ::
        (spelled value ++ (spelledMembers members ++ [.mark '\x7d']))
  | value => [.leaf value]

def spelledItems : List JsonValue → List Lexeme
  | [] => []
  | item :: items => .mark ',' :: (spelled item ++ spelledItems items)

def spelledMembers : List (String × JsonValue) → List Lexeme
  | [] => []
  | (name, value) :: members =>
      .mark ',' :: .leaf (.string name) :: .mark ':' :: (spelled value ++ spelledMembers members)

end

theorem ends_renderItems (depth : Nat) (items : List JsonValue) (hends : Ends rest) :
    Ends ((renderItems depth items).toList ++ rest) := by
  cases items with
  | nil => exact hends
  | cons item items =>
      simp only [renderItems, String.toList_append, List.append_assoc]
      exact ends_mark rfl _

theorem ends_renderMembers (depth : Nat) (members : List (String × JsonValue)) (hends : Ends rest) :
    Ends ((renderMembers depth members).toList ++ rest) := by
  cases members with
  | nil => exact hends
  | cons member members =>
      simp only [renderMembers, String.toList_append, List.append_assoc]
      exact ends_mark rfl _

theorem lexemes_name (name : String) (rest : List Char) :
    lexemes .between ((quote name).toList ++ ((": " : String).toList ++ rest)) =
      (lexemes .between rest).map fun others =>
        .leaf (.string name) :: .mark ':' :: others := by
  have hblank : lexemes .between (' ' :: rest) = lexemes .between rest := rfl
  rw [lexemes_quote]
  change (lexemes .between (':' :: ' ' :: rest)).map _ = _
  rw [lexemes_mark rfl, hblank, Option.map_map]
  rfl

theorem isInner_of_isDigit (h : c.isDigit = true) : isInner c = true := by
  have hne : ∀ d : Char, d.isDigit = false → c ≠ d := by
    rintro d hd rfl
    rw [h] at hd
    cases hd
  refine isInner_iff.mpr ⟨?_, ?_, hne '"' rfl⟩
  · simp [isBlank, hne]
  · simp [isMark, hne]

mutual

/-- A rendered value falls into its lexemes, whatever comes behind it. -/
theorem lexemes_render (depth : Nat) (value : JsonValue) (rest : List Char) (hends : Ends rest) :
    lexemes .between ((render depth value).toList ++ rest) =
      (lexemes .between rest).map (spelled value ++ ·) := by
  match value with
  | null =>
      rw [render]
      exact lexemes_leaf (by decide) rfl (by decide) hends
  | bool true =>
      rw [render]
      exact lexemes_leaf (by decide) rfl (by decide) hends
  | bool false =>
      rw [render]
      exact lexemes_leaf (by decide) rfl (by decide) hends
  | number n =>
      rw [render, Nat.toString_eq_repr, Nat.toList_repr]
      have hdigits : (Nat.toDigits 10 n).all isInner = true :=
        List.all_eq_true.mpr fun c hc =>
          isInner_of_isDigit (Nat.isDigit_of_mem_toDigits (by decide) (by decide) hc)
      exact lexemes_leaf hdigits (leaf?_digits n) Nat.toDigits_ne_nil hends
  | string text =>
      rw [render]
      exact lexemes_quote text rest
  | array [] =>
      rw [render]
      change lexemes .between ('[' :: ']' :: rest) = _
      rw [lexemes_mark rfl, lexemes_mark rfl, Option.map_map]
      rfl
  | array (item :: items) =>
      have hclose : Ends ((margin depth).toList ++ (']' :: rest)) := ends_margin depth _
      simp only [render, String.toList_append, List.append_assoc]
      change lexemes .between ('[' :: ((margin (depth + 1)).toList ++
        ((render (depth + 1) item).toList ++ ((renderItems (depth + 1) items).toList ++
          ((margin depth).toList ++ (']' :: rest)))))) = _
      rw [lexemes_mark rfl, lexemes_margin, lexemes_render _ item _ (ends_renderItems _ _ hclose),
        lexemes_renderItems _ items _ hclose, lexemes_margin, lexemes_mark rfl]
      simp [spelled, Function.comp_def]
  | object [] =>
      rw [render]
      change lexemes .between ('\x7b' :: '\x7d' :: rest) = _
      rw [lexemes_mark rfl, lexemes_mark rfl, Option.map_map]
      rfl
  | object ((name, value) :: members) =>
      have hclose : Ends ((margin depth).toList ++ ('\x7d' :: rest)) := ends_margin depth _
      simp only [render, String.toList_append, List.append_assoc]
      change lexemes .between ('\x7b' :: ((margin (depth + 1)).toList ++
        ((quote name).toList ++ ((": " : String).toList ++ ((render (depth + 1) value).toList ++
          ((renderMembers (depth + 1) members).toList ++
            ((margin depth).toList ++ ('\x7d' :: rest)))))))) = _
      rw [lexemes_mark rfl, lexemes_margin, lexemes_name,
        lexemes_render _ value _ (ends_renderMembers _ _ hclose),
        lexemes_renderMembers _ members _ hclose, lexemes_margin, lexemes_mark rfl]
      simp [spelled, Function.comp_def]

theorem lexemes_renderItems (depth : Nat) (items : List JsonValue) (rest : List Char)
    (hends : Ends rest) :
    lexemes .between ((renderItems depth items).toList ++ rest) =
      (lexemes .between rest).map (spelledItems items ++ ·) := by
  match items with
  | [] => simp [renderItems, spelledItems]
  | item :: items =>
      simp only [renderItems, String.toList_append, List.append_assoc]
      change lexemes .between (',' :: ((margin depth).toList ++
        ((render depth item).toList ++ ((renderItems depth items).toList ++ rest)))) = _
      rw [lexemes_mark rfl, lexemes_margin, lexemes_render _ item _ (ends_renderItems _ _ hends),
        lexemes_renderItems _ items _ hends]
      simp [spelledItems, Function.comp_def]

theorem lexemes_renderMembers (depth : Nat) (members : List (String × JsonValue))
    (rest : List Char) (hends : Ends rest) :
    lexemes .between ((renderMembers depth members).toList ++ rest) =
      (lexemes .between rest).map (spelledMembers members ++ ·) := by
  match members with
  | [] => simp [renderMembers, spelledMembers]
  | (name, value) :: members =>
      simp only [renderMembers, String.toList_append, List.append_assoc]
      change lexemes .between (',' :: ((margin depth).toList ++ ((quote name).toList ++
        ((": " : String).toList ++ ((render depth value).toList ++
          ((renderMembers depth members).toList ++ rest)))))) = _
      rw [lexemes_mark rfl, lexemes_margin, lexemes_name,
        lexemes_render _ value _ (ends_renderMembers _ _ hends),
        lexemes_renderMembers _ members _ hends]
      simp [spelledMembers, Function.comp_def]

end

/-! ## Lexemes taken together -/

theorem foldlM_firstItem (value : JsonValue) (frames : List Frame) (rest : List Lexeme) :
    (spelled value ++ rest).foldlM Expecting.take (.firstItem frames) =
      (spelled value ++ rest).foldlM Expecting.take (.value (.array [] :: frames)) := by
  match value with
  | null | bool _ | number _ | string _ => simp only [spelled]; rfl
  | array [] | array (_ :: _) | object [] | object (_ :: _) => simp only [spelled]; rfl

mutual

/-- Where a value is expected, its lexemes make it. -/
theorem foldlM_spelled (value : JsonValue) (frames : List Frame) (rest : List Lexeme) :
    (spelled value ++ rest).foldlM Expecting.take (.value frames) =
      rest.foldlM Expecting.take (.continuation frames value) := by
  match value with
  | null | bool _ | number _ | string _ => simp only [spelled]; rfl
  | array [] | object [] => simp only [spelled]; rfl
  | array (item :: items) =>
      have hspelled : spelled (array (item :: items)) ++ rest =
          .mark '[' :: (spelled item ++ (spelledItems items ++ (.mark ']' :: rest))) := by
        simp [spelled]
      rw [hspelled]
      change (spelled item ++ _).foldlM Expecting.take (.firstItem frames) = _
      rw [foldlM_firstItem, foldlM_spelled item, foldlM_spelledItems items]
      rfl
  | object ((name, value) :: members) =>
      have hspelled : spelled (object ((name, value) :: members)) ++ rest =
          .mark '\x7b' :: .leaf (.string name) :: .mark ':' ::
            (spelled value ++ (spelledMembers members ++ (.mark '\x7d' :: rest))) := by
        simp [spelled]
      rw [hspelled]
      change (spelled value ++ _).foldlM Expecting.take (.value (.object [] name :: frames)) = _
      rw [foldlM_spelled value, foldlM_spelledMembers members]
      rfl

theorem foldlM_spelledItems (items done : List JsonValue) (value : JsonValue) (frames : List Frame)
    (rest : List Lexeme) :
    (spelledItems items ++ (.mark ']' :: rest)).foldlM Expecting.take
        (.continuation (.array done :: frames) value) =
      rest.foldlM Expecting.take (.continuation frames (array (done ++ value :: items))) := by
  match items with
  | [] => simp only [spelledItems]; rfl
  | item :: items =>
      have hspelled : spelledItems (item :: items) ++ (.mark ']' :: rest) =
          .mark ',' :: (spelled item ++ (spelledItems items ++ (.mark ']' :: rest))) := by
        simp [spelledItems]
      rw [hspelled]
      change (spelled item ++ _).foldlM Expecting.take
        (.value (.array (done ++ [value]) :: frames)) = _
      rw [foldlM_spelled item, foldlM_spelledItems items, List.append_assoc]
      rfl

theorem foldlM_spelledMembers (members done : List (String × JsonValue)) (name : String)
    (value : JsonValue) (frames : List Frame) (rest : List Lexeme) :
    (spelledMembers members ++ (.mark '\x7d' :: rest)).foldlM Expecting.take
        (.continuation (.object done name :: frames) value) =
      rest.foldlM Expecting.take
        (.continuation frames (object (done ++ (name, value) :: members))) := by
  match members with
  | [] => simp only [spelledMembers]; rfl
  | (next, item) :: members =>
      have hspelled : spelledMembers ((next, item) :: members) ++ (.mark '\x7d' :: rest) =
          .mark ',' :: .leaf (.string next) :: .mark ':' ::
            (spelled item ++ (spelledMembers members ++ (.mark '\x7d' :: rest))) := by
        simp [spelledMembers]
      rw [hspelled]
      change (spelled item ++ _).foldlM Expecting.take
        (.value (.object (done ++ [(name, value)]) next :: frames)) = _
      rw [foldlM_spelled item, foldlM_spelledMembers members, List.append_assoc]
      rfl

end

/-- A rendered value is read back as it was. -/
theorem read?_render (depth : Nat) (value : JsonValue) : read? (render depth value) = some value := by
  have hlexemes := lexemes_render depth value [] (by simp [Ends])
  have hvalue := foldlM_spelled value [] []
  rw [List.append_nil] at hlexemes hvalue
  rw [read?, hlexemes]
  change ((spelled value ++ []).foldlM Expecting.take (.value []) >>= Expecting.value?) = _
  rw [List.append_nil, hvalue]
  rfl

theorem coded?_newline (digits : List Char) : coded? ('\n' :: digits) = none := by
  have hvalue : hexValue? '\n' = none := rfl
  rw [coded?, List.reverse_cons, List.mapM_append, List.mapM_cons, hvalue]
  cases digits.reverse.mapM hexValue? <;> rfl

/-- A line break at the end stands behind a lexeme, or no lexeme can go on with it. -/
theorem lexemes_concat_newline (scanning : Scanning) (text : List Char) :
    lexemes scanning (text ++ ['\n']) = lexemes scanning text := by
  induction text generalizing scanning with
  | nil =>
      cases scanning with
      | between => rfl
      | word letters =>
          change ((leaf? letters.reverse).bind fun value => some [Lexeme.leaf value]) =
            (leaf? letters.reverse).map fun value => [Lexeme.leaf value]
          cases leaf? letters.reverse <;> rfl
      | text letters => rfl
      | escape letters => rfl
      | code letters digits => simp [lexemes, coded?_newline]
  | cons c rest ih => cases scanning <;> simp only [List.cons_append, lexemes, ih]

/-- A line break behind a value changes nothing. -/
theorem read?_append_newline (text : String) : read? (text ++ "\n") = read? text := by
  rw [read?, read?, String.toList_append]
  change (lexemes .between (text.toList ++ ['\n'])).bind _ = _
  rw [lexemes_concat_newline]
  rfl

end JsonValue

end CSharpTidy
