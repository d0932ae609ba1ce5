import Trellis.Proofs.Value.Replace

/-!
# Storing from the outside in

A focus that goes down the keys, and stores when it has come to the last one, makes of a value what
a replacement from the inside out makes of it. Either way fails where the other does, and for the
same reason.

* `Value.Focus.member?_value`, `Value.Focus.map_replaceMember`: one step down; what takes the place
  of the member in focus replaces it in the value it was found in.
* `Value.Focus.assign_eq`: the last step.
* `Value.Focus.foldlM_assign`: the way down from any focus.
* `Value.store_eq_replace`: the two ways are one.
-/

namespace Trellis

namespace Value

namespace Focus

variable {f inner : Focus} {key : String}

/-- **A member in focus** is the member of the value in focus. -/
theorem member?_value (f : Focus) (key : String) :
    (f.member? key).map value = f.value.member? key := by
  obtain ⟨v, whole⟩ := f
  cases v with
  | object members =>
    change ((Members.get? members key).map _).map value = Members.get? members key
    cases Members.get? members key <;> rfl
  | array items =>
    rw [member?_array]
    change ((Number.index? key).bind fun i => items[i]?.map _).map value = _
    cases Number.index? key with
    | none => rfl
    | some i =>
      rw [Option.bind_some, Option.bind_some]
      cases items[i]? <;> rfl
  | _ => rfl

/-- **What takes the place** of a member in focus replaces it in the value around it, and so in the
whole. -/
theorem map_replaceMember (h : f.member? key = some inner) (x : Value) :
    (f.value.replaceMember key x).map f.whole = .ok (inner.whole x) := by
  obtain ⟨v, whole⟩ := f
  cases v with
  | object members =>
    obtain ⟨w, -, rfl⟩ := Option.map_eq_some_iff.1 h
    rfl
  | array items =>
    obtain ⟨i, hi, hplace⟩ := Option.bind_eq_some_iff.1 h
    obtain ⟨w, hw, rfl⟩ := Option.map_eq_some_iff.1 hplace
    obtain ⟨hlt, -⟩ := List.getElem?_eq_some_iff.1 hw
    unfold replaceMember
    simp only [hi, if_pos hlt]
    rfl
  | _ => cases h

/-- **Storing in focus** replaces a member of the value in focus. -/
theorem assign_eq (f : Focus) (key : String) (x : Value) :
    f.assign key x = (f.value.replaceMember key x).map f.whole := by
  obtain ⟨v, whole⟩ := f
  cases v with
  | array items =>
    unfold assign
    cases hplace : member? ⟨array items, whole⟩ key with
    | some place =>
      simp only
      exact (map_replaceMember hplace x).symm
    | none =>
      -- a place that is not there is none to replace
      have hnone : (array items).member? key = none := by
        rw [← member?_value ⟨array items, whole⟩, hplace]
        rfl
      have hout : ∀ i, Number.index? key = some i → items.length ≤ i := by
        intro i hi
        rw [member?_array, hi, Option.bind_some] at hnone
        exact List.getElem?_eq_none_iff.1 hnone
      unfold replaceMember
      simp only
      cases hi : Number.index? key with
      | none => rfl
      | some i =>
        simp only [if_neg (Nat.not_lt.2 (hout i hi))]
        rfl
  | _ => rfl

/-- **The way down**: a focus that goes down keys and then stores makes of the whole what a
replacement at those keys makes of the value it set out from. -/
theorem foldlM_assign (f : Focus) (parents : List String) (last : String) (x : Value) :
    (parents.foldlM enter f >>= fun holder => holder.assign last x) =
      (f.value.replace (parents ++ [last]) x).map f.whole := by
  induction parents generalizing f with
  | nil => exact f.assign_eq last x
  | cons key rest ih =>
    have hlast : rest ++ [last] ≠ [] :=
      List.append_ne_nil_of_right_ne_nil rest (List.cons_ne_nil last [])
    rw [List.foldlM_cons, bind_assoc, List.cons_append, replace_cons hlast, ← f.member?_value key]
    unfold enter
    cases hmember : f.member? key with
    | none => rfl
    | some inner =>
      -- what the rest of the way makes of the member replaces it on the way back
      change (rest.foldlM enter inner >>= fun holder => holder.assign last x) =
        (inner.value.replace (rest ++ [last]) x >>= f.value.replaceMember key).map f.whole
      rw [ih]
      cases inner.value.replace (rest ++ [last]) x with
      | error e => rfl
      | ok w => exact (map_replaceMember hmember w).symm

end Focus

/-- **The two ways of storing are one**, with their failures. -/
theorem store_eq_replace (v : Value) (keys : List String) (x : Value) :
    v.store keys x = v.replace keys x := by
  rcases List.eq_nil_or_concat keys with rfl | ⟨parents, last, rfl⟩
  · rfl
  · unfold store
    rw [List.concat_eq_append, List.getLast?_concat, List.dropLast_concat]
    simp only
    rw [Focus.foldlM_assign]
    change (v.replace (parents ++ [last]) x).map id = _
    cases v.replace (parents ++ [last]) x <;> rfl

end Value

end Trellis
