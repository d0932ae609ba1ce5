import Trellis.Proofs.Value.Replace

/-!
# Reading around a replacement

What is read at any keys after a replacement. Keys are compared by the members they name: in a list
one place can be spelled in several ways. The keys of a read go the way of those that were replaced
at, as far as they go or further, and end above the replaced member, at it or below it; or they part
from it at some step and lead beside it.

* `Value.Coincide`, `Value.SameWay`, `Value.Parted`: how keys compare.
* `Value.SameWay.at?_below`, `Value.Parted.at?_eq`, `Value.SameWay.at?_above`: the three reads;
  `Value.sameWay_or_parted`: there is no other.
* `Value.KeepsPlaces`: what the containers on the way keep.
* `Value.Placeless`, `Value.replace_error_iff`: when nothing can be replaced.
-/

namespace Trellis

namespace Value

variable {v w x r : Value} {key key' : String} {keys keys' rest above above' : List String}

/-- Two keys name one member of a value: in an array they are read as the same place. -/
def Coincide (v : Value) (key key' : String) : Prop :=
  match v with
  | array _ => ∃ i, Number.index? key = some i ∧ Number.index? key' = some i
  | _ => key = key'

/-- Two lists of keys name the same members one after the other. The last one need not be there. -/
inductive SameWay : Value → List String → List String → Prop
  | nil {v : Value} : SameWay v [] []
  | last {v : Value} {key key' : String} (one : v.Coincide key key') : SameWay v [key] [key']
  | step {v w : Value} {key key' next : String} {rest keys' : List String}
      (one : v.Coincide key key') (there : v.member? key = some w)
      (on : SameWay w (next :: rest) keys') : SameWay v (key :: next :: rest) (key' :: keys')

/-- Two lists of keys name the same members for a while, and then different ones. -/
inductive Parted : Value → List String → List String → Prop
  | here {v : Value} {key key' : String} {keys keys' : List String}
      (apart : ¬ v.Coincide key key') : Parted v (key :: keys) (key' :: keys')
  | later {v w : Value} {key key' : String} {keys keys' : List String}
      (one : v.Coincide key key') (there : v.member? key = some w) (on : Parted w keys keys') :
      Parted v (key :: keys) (key' :: keys')

theorem SameWay.cons (one : v.Coincide key key') (there : v.member? key = some w)
    (on : w.SameWay keys keys') : v.SameWay (key :: keys) (key' :: keys') := by
  cases keys with
  | nil => cases on; exact .last one
  | cons next rest => exact .step one there on

/-! ### One member -/

theorem Coincide.member?_eq (h : v.Coincide key key') : v.member? key' = v.member? key := by
  cases v with
  | array items =>
    obtain ⟨i, hi, hi'⟩ := h
    rw [member?_array, member?_array, hi, hi']
  | _ => rw [show key = key' from h]

/-- Keys name one member after it was replaced if they did before. -/
theorem Coincide.member?_replaced (h : v.Coincide key key') (hr : v.replaceMember key w = .ok r) :
    r.member? key' = some w := by
  have hone : r.Coincide key key' := by
    cases v with
    | array items =>
      obtain ⟨i, -, -, rfl⟩ := replaceMember_array hr
      exact h
    | object members => cases hr; exact h
    | _ => cases hr
  rw [hone.member?_eq]
  exact member?_of_replaceMember hr

/-- Another member is what it was. -/
theorem member?_of_not_coincide (h : ¬ v.Coincide key key')
    (hr : v.replaceMember key w = .ok r) : r.member? key' = v.member? key' := by
  refine member?_of_replaceMember_apart hr ?_
  rw [sameMember_of_replaceMember hr, Bool.eq_false_iff]
  intro hsame
  cases v with
  | array items =>
    obtain ⟨i, hi, -, -⟩ := replaceMember_array hr
    unfold sameMember at hsame
    rw [Bool.or_eq_true, beq_iff_eq, Bool.and_eq_true, beq_iff_eq, hi] at hsame
    rcases hsame with rfl | ⟨-, hi'⟩
    · exact h ⟨i, hi, hi⟩
    · exact h ⟨i, hi, hi'⟩
  | object members => exact h (beq_iff_eq.1 hsame).symm
  | _ => cases hr

/-- A member that is there can be replaced. -/
theorem replaceMember_of_member? (h : v.member? key = some w) (x : Value) :
    ∃ r, v.replaceMember key x = .ok r := by
  cases v with
  | object members => exact ⟨_, rfl⟩
  | array items =>
    rw [member?_array] at h
    obtain ⟨i, hi, hget⟩ := Option.bind_eq_some_iff.1 h
    obtain ⟨hlt, -⟩ := List.getElem?_eq_some_iff.1 hget
    refine ⟨array (items.set i x), ?_⟩
    unfold replaceMember
    simp only [hi, if_pos hlt]
  | _ => cases h

/-! ### Below, beside and above -/

/-- **At the replaced member and below it** there is what it was replaced by. -/
theorem SameWay.at?_below (h : v.SameWay keys keys') (hr : v.replace keys x = .ok r)
    (more : List String) : r.at? (keys' ++ more) = x.at? more := by
  induction h generalizing r with
  | nil => cases hr; rfl
  | last hone =>
    rw [List.singleton_append, at?, hone.member?_replaced hr]
  | step hone hthere _ ih =>
    obtain ⟨y, hy, ⟨hnil, -⟩ | ⟨inner, hinner, hrest⟩⟩ := replace_cons_eq_ok hr
    · cases hnil
    · cases hthere.symm.trans hinner
      rw [List.cons_append, at?, hone.member?_replaced hy]
      exact ih hrest

/-- **Beside it** there is what there was, or is nothing as before. -/
theorem Parted.at?_eq (h : v.Parted keys keys') (hr : v.replace keys x = .ok r) :
    r.at? keys' = v.at? keys' := by
  induction h generalizing r with
  | here hapart =>
    obtain ⟨y, hy, -⟩ := replace_cons_eq_ok hr
    rw [at?, at?, member?_of_not_coincide hapart hy]
  | later hone hthere hon ih =>
    obtain ⟨y, hy, ⟨rfl, -⟩ | ⟨inner, hinner, hrest⟩⟩ := replace_cons_eq_ok hr
    · cases hon
    · cases hthere.symm.trans hinner
      rw [at?, at?, hone.member?_replaced hy, hone.member?_eq, hthere]
      exact ih hrest

/-- **Above it** there is what was there, with the rest of the keys replaced at. -/
theorem SameWay.at?_above (h : v.SameWay above above') (hrest : rest ≠ [])
    (hr : v.replace (above ++ rest) x = .ok r) :
    ∃ old new, v.at? above' = .ok old ∧ r.at? above' = .ok new ∧ old.replace rest x = .ok new := by
  induction h generalizing r with
  | nil => exact ⟨_, _, rfl, rfl, hr⟩
  | last hone =>
    obtain ⟨y, hy, ⟨hnil, -⟩ | ⟨inner, hinner, hbelow⟩⟩ := replace_cons_eq_ok hr
    · exact absurd hnil hrest
    · refine ⟨inner, y, ?_, ?_, hbelow⟩
      · rw [at?, hone.member?_eq, hinner]
        rfl
      · rw [at?, hone.member?_replaced hy]
        rfl
  | step hone hthere _ ih =>
    obtain ⟨y, hy, ⟨hnil, -⟩ | ⟨inner, hinner, hbelow⟩⟩ := replace_cons_eq_ok hr
    · cases hnil
    · cases hthere.symm.trans hinner
      obtain ⟨old, new, hold, hnew, hreplaced⟩ := ih hbelow
      refine ⟨old, new, ?_, ?_, hreplaced⟩
      · rw [at?, hone.member?_eq, hthere]
        exact hold
      · rw [at?, hone.member?_replaced hy]
        exact hnew

/-- The keys that were replaced at go their own way. -/
theorem sameWay_self (hr : v.replace keys x = .ok r) : v.SameWay keys keys := by
  induction keys generalizing v r with
  | nil => exact .nil
  | cons key rest ih =>
    obtain ⟨y, hy, hbelow⟩ := replace_cons_eq_ok hr
    have hone : v.Coincide key key := by
      cases v with
      | array items =>
        obtain ⟨i, hi, -, -⟩ := replaceMember_array hy
        exact ⟨i, hi, hi⟩
      | _ => exact rfl
    rcases hbelow with ⟨rfl, -⟩ | ⟨inner, hinner, hrest⟩
    · exact .last hone
    · exact .cons hone hinner (ih hrest)

/-- **Every read** is one of the three. -/
theorem sameWay_or_parted (hr : v.replace keys x = .ok r) (keys' : List String) :
    (∃ way more, keys' = way ++ more ∧ v.SameWay keys way) ∨ v.Parted keys keys' ∨
      ∃ above rest, keys = above ++ rest ∧ rest ≠ [] ∧ v.SameWay above keys' := by
  induction keys generalizing v r keys' with
  | nil => exact .inl ⟨[], keys', rfl, .nil⟩
  | cons key rest ih =>
    cases keys' with
    | nil => exact .inr (.inr ⟨[], key :: rest, rfl, List.cons_ne_nil key rest, .nil⟩)
    | cons key' rest' =>
      by_cases hone : v.Coincide key key'
      · obtain ⟨y, -, ⟨rfl, -⟩ | ⟨inner, hinner, hbelow⟩⟩ := replace_cons_eq_ok hr
        · exact .inl ⟨[key'], rest', rfl, .last hone⟩
        · rcases ih hbelow rest' with ⟨way, more, rfl, h⟩ | h | ⟨above, rest, rfl, hrest, h⟩
          · exact .inl ⟨key' :: way, more, rfl, .cons hone hinner h⟩
          · exact .inr (.inl (.later hone hinner h))
          · exact .inr (.inr ⟨key :: above, rest, rfl, hrest, .cons hone hinner h⟩)
      · exact .inr (.inl (.here hone))

/-! ### Containers -/

/-- What a container keeps when a member of it is replaced: an object its names in their order, a
new one going last, and an array its length. -/
def KeepsPlaces (key : String) : Value → Value → Prop
  | object old, object new => Members.names new =
      if key ∈ Members.names old then Members.names old else Members.names old ++ [key]
  | array old, array new => new.length = old.length
  | _, _ => False

theorem keepsPlaces_of_replace (h : v.replace (key :: rest) x = .ok r) : KeepsPlaces key v r := by
  obtain ⟨w, hw, -⟩ := replace_cons_eq_ok h
  cases v with
  | object members => cases hw; exact Members.names_assign members key w
  | array items =>
    obtain ⟨i, -, -, rfl⟩ := replaceMember_array hw
    exact List.length_set
  | _ => cases hw

/-! ### Failures -/

/-- **No place**: a member on the way is absent; what is to hold the last member is an array without
such a place; or it is neither an array nor an object. -/
inductive Placeless (v : Value) : List String → Misplaced → Prop
  | absent (above : List String) {rest : List String} {w : Value} {key next : String}
      (there : v.at? above = .ok w) (gone : w.member? key = none) :
      Placeless v (above ++ key :: next :: rest) (.absent key)
  | outside (above : List String) {items : List Value} {key : String}
      (there : v.at? above = .ok (array items))
      (out : ∀ i, Number.index? key = some i → items.length ≤ i) :
      Placeless v (above ++ [key]) (.outside key)
  | noContainer (above : List String) {w : Value} {key : String} (there : v.at? above = .ok w)
      (noArray : ∀ items, w ≠ array items) (noObject : ∀ members, w ≠ object members) :
      Placeless v (above ++ [key]) (.noContainer key w.kind)

variable {e : Misplaced}

theorem Placeless.cons (hm : v.member? key = some w) (h : w.Placeless keys e) :
    v.Placeless (key :: keys) e := by
  have hstep : ∀ {above y}, w.at? above = .ok y → v.at? (key :: above) = .ok y := by
    intro above y hy
    rw [at?, hm]
    exact hy
  cases h with
  | absent above there gone => exact .absent (key :: above) (hstep there) gone
  | outside above there out => exact .outside (key :: above) (hstep there) out
  | noContainer above there noArray noObject =>
    exact .noContainer (key :: above) (hstep there) noArray noObject

/-- The last member has no place in what is to hold it. -/
theorem placeless_of_replaceMember (h : v.replaceMember key x = .error e) : v.Placeless [key] e := by
  cases v with
  | object members => cases h
  | array items =>
    have hout : ∀ i, Number.index? key = some i → items.length ≤ i := by
      intro i hi
      refine Nat.le_of_not_lt fun hlt => ?_
      unfold replaceMember at h
      simp only [hi, if_pos hlt] at h
      cases h
    have he : e = .outside key := by
      unfold replaceMember at h
      simp only at h
      split at h
      · split at h
        · cases h
        · cases h; rfl
      · cases h; rfl
    subst he
    exact .outside [] rfl hout
  | _ =>
    cases h
    exact .noContainer [] rfl nofun nofun

/-- **What fails** has no place. -/
theorem placeless_of_replace (h : v.replace keys x = .error e) : v.Placeless keys e := by
  induction keys generalizing v e with
  | nil => cases h
  | cons key rest ih =>
    cases rest with
    | nil => exact placeless_of_replaceMember h
    | cons next rest =>
      rw [replace_cons (List.cons_ne_nil next rest)] at h
      cases hm : v.member? key with
      | none =>
        rw [hm] at h
        cases h
        exact .absent [] rfl hm
      | some inner =>
        rw [hm] at h
        simp only at h
        cases hinner : inner.replace (next :: rest) x with
        | error e' =>
          rw [hinner] at h
          cases h
          exact .cons hm (ih hinner)
        | ok y =>
          -- the member is there, so what it became has a place
          rw [hinner] at h
          obtain ⟨r, hr⟩ := replaceMember_of_member? hm y
          cases hr.symm.trans h

/-- A replacement below a member that is there fails if it fails there. -/
theorem replace_error_of_at? (hw : v.at? above = .ok w) (hrest : rest ≠ [])
    (h : w.replace rest x = .error e) : v.replace (above ++ rest) x = .error e := by
  induction above generalizing v with
  | nil => cases hw; exact h
  | cons key above ih =>
    rw [at?] at hw
    cases hm : v.member? key with
    | none => rw [hm] at hw; cases hw
    | some inner =>
      rw [hm] at hw
      have hlast : above ++ rest ≠ [] := List.append_ne_nil_of_right_ne_nil above hrest
      rw [List.cons_append, replace_cons hlast, hm]
      simp only [ih hw]
      rfl

/-- **What has no place** fails. -/
theorem Placeless.replace_eq (h : v.Placeless keys e) (x : Value) : v.replace keys x = .error e := by
  cases h with
  | absent above there gone =>
    refine replace_error_of_at? there (List.cons_ne_nil _ _) ?_
    rw [replace_cons (List.cons_ne_nil _ _), gone]
  | @outside above items key there out =>
    refine replace_error_of_at? there (List.cons_ne_nil _ _) ?_
    rw [replace, replaceMember]
    cases hi : Number.index? key with
    | none => rfl
    | some i => simp only [if_neg (Nat.not_lt.2 (out i hi))]
  | @noContainer above w key there noArray noObject =>
    refine replace_error_of_at? there (List.cons_ne_nil _ _) ?_
    cases w with
    | array items => exact absurd rfl (noArray items)
    | object members => exact absurd rfl (noObject members)
    | _ => rfl

/-- **A replacement fails** exactly where there is no place. -/
theorem replace_error_iff : v.replace keys x = .error e ↔ v.Placeless keys e :=
  ⟨placeless_of_replace, fun h => h.replace_eq x⟩

end Value

end Trellis
