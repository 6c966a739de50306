import CSharpTidy.Text.Basic

namespace CSharpTidy

namespace Text

/-- What follows a mark at the beginning of a text. -/
def skip? : Text → Text → Option Text
  | text, [] => some text
  | [], _ :: _ => none
  | c :: text, d :: mark => if c = d then skip? text mark else none

theorem skip?_append (mark text : Text) : skip? (mark ++ text) mark = some text := by
  induction mark with
  | nil => simp [skip?]
  | cons c mark ih => simp [skip?, ih]

theorem eq_append_of_skip? {text mark rest : Text} (h : skip? text mark = some rest) :
    text = mark ++ rest := by
  induction mark generalizing text with
  | nil => simpa [skip?] using h
  | cons d mark ih =>
      cases text with
      | nil => simp [skip?] at h
      | cons c text =>
          simp only [skip?] at h
          split at h
          · rename_i hcd
            rw [hcd, ih h, List.cons_append]
          · simp at h

theorem length_le_of_skip? {text mark rest : Text} (h : skip? text mark = some rest) :
    rest.length ≤ text.length := by
  rw [eq_append_of_skip? h, List.length_append]
  exact Nat.le_add_left rest.length mark.length

/-- The parts before and after the first occurrence of a character. -/
def cutAt? (stop : Char) : Text → Option (Text × Text)
  | [] => none
  | c :: text =>
      if c = stop then some ([], text)
      else (cutAt? stop text).map fun (before, after) => (c :: before, after)

theorem cutAt?_append {stop : Char} {before : Text} (h : stop ∉ before) (after : Text) :
    cutAt? stop (before ++ stop :: after) = some (before, after) := by
  induction before with
  | nil => simp [cutAt?]
  | cons c before ih =>
      rw [List.mem_cons, not_or] at h
      simp [cutAt?, Ne.symm h.1, ih h.2]

theorem eq_append_of_cutAt? {stop : Char} {text before after : Text}
    (h : cutAt? stop text = some (before, after)) : text = before ++ stop :: after := by
  induction text generalizing before with
  | nil => simp [cutAt?] at h
  | cons c text ih =>
      simp only [cutAt?] at h
      split at h
      · rename_i hc
        simp only [Option.some.injEq, Prod.mk.injEq] at h
        rw [← h.1, ← h.2, hc, List.nil_append]
      · simp only [Option.map_eq_some_iff, Prod.mk.injEq] at h
        obtain ⟨⟨first, second⟩, hcut, hfirst, hsecond⟩ := h
        subst hfirst hsecond
        rw [ih hcut, List.cons_append]

theorem length_lt_of_cutAt? {stop : Char} {text before after : Text}
    (h : cutAt? stop text = some (before, after)) : after.length < text.length := by
  rw [eq_append_of_cutAt? h, List.length_append, List.length_cons]
  omega

end Text

end CSharpTidy
