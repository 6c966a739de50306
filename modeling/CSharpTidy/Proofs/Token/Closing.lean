import CSharpTidy.Proofs.Token.Context

/-!
# The ends of literals and comments

Literals and block comments end with the mark that closes them, and no token ends with a blank but one
that runs to the end of its line.
-/

namespace CSharpTidy

namespace Scan

variable {c quote : Char} {text lexeme rest : Text} {length fence : Nat} {lineStart : Bool}

theorem getLast?_cons_of_eq {last : Char} (h : text.getLast? = some last) (c : Char) :
    (c :: text).getLast? = some last := by
  rw [List.getLast?_cons, h, Option.getD_some]

theorem getLast?_append_of_eq {last : Char} (h : text.getLast? = some last) (front : Text) :
    (front ++ text).getLast? = some last := by
  rw [List.getLast?_append, h, Option.some_or]

theorem getLast?_commentLength? (h : commentLength? text = some length) :
    (text.take length).getLast? = some '/' := by
  fun_induction commentLength? text generalizing length with
  | case1 => cases h
  | case2 => cases h; rfl
  | case3 c text _ ih =>
      obtain ⟨inner, hinner, rfl⟩ := Option.map_eq_some_iff.mp h
      exact getLast?_cons_of_eq (ih hinner) c

theorem getLast?_quotedLength? (h : quotedLength? quote text = some length) :
    (text.take length).getLast? = some quote := by
  fun_induction quotedLength? quote text generalizing length with
  | case1 => cases h
  | case2 => cases h
  | case3 c text ih =>
      obtain ⟨inner, hinner, rfl⟩ := Option.map_eq_some_iff.mp h
      exact getLast?_cons_of_eq (getLast?_cons_of_eq (ih hinner) c) '\\'
  | case4 => cases h; rfl
  | case5 => cases h
  | case6 c text _ _ _ _ ih =>
      obtain ⟨inner, hinner, rfl⟩ := Option.map_eq_some_iff.mp h
      exact getLast?_cons_of_eq (ih hinner) c

theorem getLast?_verbatimLength? (h : verbatimLength? text = some length) :
    (text.take length).getLast? = some '"' := by
  fun_induction verbatimLength? text generalizing length with
  | case1 => cases h
  | case2 text ih =>
      obtain ⟨inner, hinner, rfl⟩ := Option.map_eq_some_iff.mp h
      exact getLast?_cons_of_eq (getLast?_cons_of_eq (ih hinner) '"') '"'
  | case3 => cases h; rfl
  | case4 c text _ _ ih =>
      obtain ⟨inner, hinner, rfl⟩ := Option.map_eq_some_iff.mp h
      exact getLast?_cons_of_eq (ih hinner) c

theorem getLast?_quoteRun (h : 1 ≤ quoteRun text) :
    (text.take (quoteRun text)).getLast? = some '"' := by
  have htake : text.take (quoteRun text) = text.takeWhile (· == '"') := by
    rw [quoteRun]
    exact (List.prefix_iff_eq_take.mp (List.takeWhile_prefix _)).symm
  rw [htake]
  have hall := List.all_eq_true.mp (List.all_takeWhile (p := (· == '"')) (l := text))
  cases hlast : (text.takeWhile (· == '"')).getLast? with
  | none =>
      rw [List.getLast?_eq_none_iff] at hlast
      rw [quoteRun, hlast, List.length_nil] at h
      omega
  | some last => rw [beq_iff_eq.mp (hall last (List.mem_of_getLast? hlast))]

theorem getLast?_fencedLength? (hfence : 1 ≤ fence) (h : fencedLength? fence text = some length) :
    (text.take length).getLast? = some '"' := by
  induction text generalizing length with
  | nil => cases h
  | cons c text ih =>
      rw [fencedLength?] at h
      split at h
      · next hrun =>
          cases h
          exact getLast?_quoteRun (Nat.le_trans hfence hrun)
      · obtain ⟨inner, hinner, rfl⟩ := Option.map_eq_some_iff.mp h
        exact getLast?_cons_of_eq (ih hinner) c

theorem getLast?_stringLength (h : stringLength text = .ok length) :
    (text.take length).getLast? = some '"' := by
  unfold stringLength at h
  simp only at h
  split at h
  · next hrun =>
      split at h
      · next hfenced =>
          cases h
          rw [List.take_add]
          exact getLast?_append_of_eq (getLast?_fencedLength? (by omega) hfenced) _
      · cases h
  · split at h
    · next hquoted =>
        cases h
        rw [List.take_add]
        exact getLast?_append_of_eq (getLast?_quotedLength? hquoted) _
    · cases h

theorem getLast?_markedStringLength (h : markedStringLength text = .ok length) :
    (text.take length).getLast? = some '"' := by
  rw [markedStringLength_eq] at h
  simp only at h
  split at h
  · split at h
    · next hverbatim =>
        cases h
        rw [List.take_add]
        refine getLast?_append_of_eq ?_ _
        rw [← List.drop_drop]
        exact getLast?_verbatimLength? hverbatim
    · cases h
  · split at h
    · next hstring =>
        cases h
        rw [List.take_add]
        exact getLast?_append_of_eq (getLast?_stringLength hstring) _
    · cases h

theorem getLast?_of_head_string (h : head lineStart c text = .ok (.string, length)) :
    ((c :: text).take (length + 1)).getLast? = some '"' := by
  cases head_eq_ok_iff.mp h with
  | @string whole _ hwhole =>
      have hpos := (stringLength_le hwhole (List.cons_ne_nil _ _)).1
      rw [Nat.sub_add_cancel hpos]
      exact getLast?_stringLength hwhole
  | @marked whole hopens hwhole =>
      have hpos := (markedStringLength_le hwhole hopens).1
      rw [Nat.sub_add_cancel hpos]
      exact getLast?_markedStringLength hwhole

theorem Takes.getLast?_of_string (h : Takes lineStart .string lexeme rest) :
    lexeme.getLast? = some '"' := by
  obtain ⟨c, tail, rfl, -, hhead⟩ := h
  have hlast := getLast?_of_head_string hhead
  have htake : (c :: (tail ++ rest)).take (tail.length + 1) = c :: tail := by
    rw [List.take_succ_cons, List.take_left]
  rwa [htake] at hlast

end Scan

end CSharpTidy
