import Trellis.Proofs.Members
import Trellis.Proofs.Value.Plain

/-!
# Replacing members

A write replaces one member of a value, given by the keys that lead to it. Read back, the member is
what was written; and so is every other member what it was, unless the one encloses the other.

* `Value.replace_object`: replacing below an object.
* `Value.at?_of_replace`: what was written reads back.
* `Value.overlaps`, `Value.at?_of_apart`: members that a write leaves as they were.
-/

namespace Trellis

/-! ### Replacing -/

namespace Value

/-- What becomes of a member of an object when something below it is replaced. -/
def replaceBelow (old : Option Value) (key : String) (rest : List String) (v : Value) :
    Except Misplaced Value :=
  if rest.isEmpty then .ok v
  else match old with
    | none => .error (.absent key)
    | some inner => inner.replace rest v

/-- **Replacing** below an object assigns one of its members, given what it was. -/
theorem replace_object (members : Members Value) (key : String) (rest : List String) (v : Value) :
    (object members).replace (key :: rest) v =
      (replaceBelow (members.get? key) key rest v).map fun w =>
        object (Members.assign members key w) := by
  cases rest with
  | nil => rfl
  | cons next rest =>
    unfold replace replaceBelow
    simp only [member?, List.isEmpty_cons, Bool.false_eq_true, if_false]
    cases members.get? key with
    | none => rfl
    | some inner =>
      simp only
      cases inner.replace (next :: rest) v <;> rfl

end Value

/-! ### Reading back -/

namespace Value

variable {v w x r y : Value} {key key' : String} {keys keys' rest : List String}

theorem member?_array (items : List Value) (key : String) :
    (array items).member? key = (Number.index? key).bind fun i => items[i]? := rfl

/-- A place of a list that is replaced is there. -/
theorem replaceMember_array {items : List Value} (h : (array items).replaceMember key w = .ok r) :
    ∃ i, Number.index? key = some i ∧ i < items.length ∧ r = array (items.set i w) := by
  unfold replaceMember at h
  cases hi : Number.index? key with
  | none => simp only [hi] at h; cases h
  | some i =>
    simp only [hi] at h
    split at h
    · next hlt =>
      cases h
      exact ⟨i, rfl, hlt, rfl⟩
    · cases h

theorem member?_of_replaceMember (h : v.replaceMember key w = .ok r) : r.member? key = some w := by
  cases v with
  | object members =>
    cases h
    exact Members.get?_assign_self members key w
  | array items =>
    obtain ⟨i, hi, hlt, rfl⟩ := replaceMember_array h
    rw [member?_array, hi, Option.bind_some, List.getElem?_set_self hlt]
  | _ => cases h

/-- A replacement further down goes through a member that is there. -/
theorem replace_cons (h : rest ≠ []) : v.replace (key :: rest) x =
    match v.member? key with
    | none => .error (.absent key)
    | some inner => inner.replace rest x >>= v.replaceMember key := by
  cases rest with
  | nil => exact absurd rfl h
  | cons next rest => rfl

/-- **A replacement** replaces a member of the value, by something else or by what it became. -/
theorem replace_cons_eq_ok (h : v.replace (key :: rest) x = .ok r) :
    ∃ w, v.replaceMember key w = .ok r ∧
      (rest = [] ∧ w = x ∨ ∃ inner, v.member? key = some inner ∧ inner.replace rest x = .ok w) := by
  cases rest with
  | nil => exact ⟨x, h, .inl ⟨rfl, rfl⟩⟩
  | cons next rest =>
    rw [replace_cons (List.cons_ne_nil next rest)] at h
    cases hm : v.member? key with
    | none => rw [hm] at h; cases h
    | some inner =>
      rw [hm] at h
      obtain ⟨w, hw, hr⟩ := Except.bind_eq_ok.1 h
      exact ⟨w, hr, .inr ⟨inner, rfl, hw⟩⟩

/-- **What was written reads back.** -/
theorem at?_of_replace (h : v.replace keys x = .ok r) : r.at? keys = .ok x := by
  induction keys generalizing v r with
  | nil => cases h; rfl
  | cons key rest ih =>
    obtain ⟨w, hr, hbelow⟩ := replace_cons_eq_ok h
    rw [at?, member?_of_replaceMember hr]
    rcases hbelow with ⟨rfl, rfl⟩ | ⟨inner, -, hrest⟩
    · rfl
    · exact ih hrest

/-! ### Members apart -/

/-- Whether two keys name one member of a value: in a list the same place can be spelled in several
ways. -/
def sameMember (v : Value) (key key' : String) : Bool :=
  match v with
  | array _ => key == key' || (Number.index? key).isSome && Number.index? key == Number.index? key'
  | _ => key == key'

/-- Whether of two members, each given by the keys that lead to it, the one is the other or encloses
it. -/
def overlaps : Value → List String → List String → Bool
  | v, key :: keys, key' :: keys' =>
    v.sameMember key key' &&
      match v.member? key with
      | some w => w.overlaps keys keys'
      | none => true
  | _, _, _ => true

theorem member?_of_sameMember (h : v.sameMember key key' = true) :
    v.member? key = v.member? key' := by
  cases v with
  | array items =>
    unfold sameMember at h
    rw [Bool.or_eq_true, beq_iff_eq, Bool.and_eq_true, beq_iff_eq] at h
    rcases h with rfl | ⟨-, hi⟩
    · rfl
    · rw [member?_array, member?_array, hi]
  | _ =>
    rw [beq_iff_eq.1 h]

/-- Members that two keys tell apart. -/
theorem member?_of_replaceMember_apart (h : v.replaceMember key' w = .ok r)
    (hapart : r.sameMember key key' = false) : r.member? key = v.member? key := by
  cases v with
  | object members =>
    cases h
    exact Members.get?_assign_of_ne w (beq_eq_false_iff_ne.1 hapart)
  | array items =>
    obtain ⟨i, hi, -, rfl⟩ := replaceMember_array h
    unfold sameMember at hapart
    rw [member?_array, member?_array]
    cases hj : Number.index? key with
    | none => rfl
    | some j =>
      -- another place of the list
      rw [hi, hj] at hapart
      have hne : i ≠ j := fun hij => by simp [hij] at hapart
      exact List.getElem?_set_ne hne
  | _ => cases h

/-- In which container keys lead apart does not depend on what is written below it. -/
theorem sameMember_of_replaceMember (h : v.replaceMember key' w = .ok r) (k : String) :
    r.sameMember k key' = v.sameMember k key' := by
  cases v with
  | object members => cases h; rfl
  | array items =>
    obtain ⟨i, -, -, rfl⟩ := replaceMember_array h
    rfl
  | _ => cases h

/-- **Members apart** from the one that is written to are as they were. -/
theorem at?_of_apart (h : v.replace keys' x = .ok r) (hapart : r.overlaps keys keys' = false) :
    r.at? keys = v.at? keys := by
  induction keys' generalizing v r keys with
  | nil => cases keys <;> cases hapart
  | cons key' rest' ih =>
    cases keys with
    | nil => cases hapart
    | cons key rest =>
      -- the data below the container of both keys, and what became of it
      obtain ⟨w, hr, hbelow⟩ := replace_cons_eq_ok h
      rw [at?, at?]
      cases hsame : r.sameMember key key' with
      | false => rw [member?_of_replaceMember_apart hr hsame]
      | true =>
        have hnew : r.member? key = some w :=
          (member?_of_sameMember hsame).trans (member?_of_replaceMember hr)
        unfold overlaps at hapart
        rw [hsame, hnew, Bool.true_and] at hapart
        rcases hbelow with ⟨rfl, -⟩ | ⟨inner, hinner, hw⟩
        · cases rest <;> cases hapart
        · rw [sameMember_of_replaceMember hr] at hsame
          rw [hnew, member?_of_sameMember hsame, hinner]
          exact ih hw hapart

/-- Members that others are assigned beside. -/
theorem at?_extend {members : Members Value} (key : String) (hkey : key ∉ Members.names members)
    (m : Members Value) (rest : List String) :
    (object (Members.extend m members)).at? (key :: rest) = (object m).at? (key :: rest) := by
  have hget : Members.get? (Members.extend m members) key = Members.get? m key := by
    have hreverse : Members.get? members.reverse key = none := by
      rw [Members.get?_eq_none]
      unfold Members.names
      rwa [List.map_reverse, List.mem_reverse]
    rw [Members.get?_extend, hreverse, Option.none_or]
  rw [at?, at?, member?, member?, hget]

end Value

end Trellis
