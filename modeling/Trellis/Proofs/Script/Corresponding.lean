import Trellis.Proofs.Members
import Trellis.Proofs.Scope.Sight
import Trellis.Script.Calls
import Mathlib.Order.Basic

/-!
# Corresponding calls

Calls of two runs correspond if they are equally far from the first ones. A parameter stays one for
good, so what is known of the parameters of calls only grows.

* `SameCall`, `SameCalls`: corresponding calls, and what their parameters hold.
* `Holding`: which parameters calls are known to have.
* `bindParameters_alike`, `get?_bindParameters`: the parameters of a new call.
-/

namespace Trellis

open Value Act

/-- Calls that are equally far from the first one of two runs. -/
def SameCall (s t : Session) (i j : Nat) : Prop :=
  ∃ m, i = s.calls.size + m ∧ j = t.calls.size + m

/-- Two runs begun in `s` and `t` have made as many functions and entered as many calls, and
corresponding calls have parameters that are alike. -/
structure SameCalls (s t : Session) (F : Callable → Callable → Prop) (s' t' : Session) : Prop where
  functions : ∃ n, s'.nextFunction = s.nextFunction + n ∧ t'.nextFunction = t.nextFunction + n
  calls : SameCall s t s'.calls.size t'.calls.size
  params : ∀ i j, SameCall s t i j →
    AlikeMembers F (s'.calls[i]?.getD []) (t'.calls[j]?.getD [])

variable {s t : Session} {F : Callable → Callable → Prop}

theorem SameCalls.mono {G : Callable → Callable → Prop} {s' t' : Session}
    (h : SameCalls s t F s' t') (hFG : ∀ f g, F f g → G f g) : SameCalls s t G s' t' :=
  ⟨h.functions, h.calls, fun i j hij => (h.params i j hij).mono hFG⟩

/-- Before anything is called no call has parameters. -/
theorem SameCalls.start : SameCalls s t F s t where
  functions := ⟨0, rfl, rfl⟩
  calls := ⟨0, rfl, rfl⟩
  params := by
    rintro i j ⟨m, rfl, rfl⟩
    rw [Array.getElem?_eq_none (by omega), Array.getElem?_eq_none (by omega)]
    exact .nil

theorem SameCall.eq_iff {i j i' j' : Nat} (h : SameCall s t i j) (h' : SameCall s t i' j') :
    i = i' ↔ j = j' := by
  obtain ⟨m, rfl, rfl⟩ := h
  obtain ⟨m', rfl, rfl⟩ := h'
  omega

theorem SameCall.lt_iff {i j i' j' : Nat} (h : SameCall s t i j) (h' : SameCall s t i' j') :
    i < i' ↔ j < j' := by
  obtain ⟨m, rfl, rfl⟩ := h
  obtain ⟨m', rfl, rfl⟩ := h'
  omega

/-- New parameters are of corresponding calls. -/
theorem SameCalls.enterCall {s' t' : Session} (h : SameCalls s t F s' t') {ps ps' : Members Value}
    (hps : AlikeMembers F ps ps') :
    SameCalls s t F { s' with calls := s'.calls.push ps } { t' with calls := t'.calls.push ps' } where
  functions := h.functions
  calls := by
    -- the new calls are as far from the first ones as the runs have come
    obtain ⟨m, hm, hm'⟩ := h.calls
    rw [Array.size_push, Array.size_push]
    exact ⟨m + 1, by omega, by omega⟩
  params := by
    intro i j hij
    have hiff := hij.eq_iff h.calls
    have hparams := h.params i j hij
    rw [Array.getElem?_push, Array.getElem?_push]
    by_cases hi : i = s'.calls.size
    · rw [if_pos hi, if_pos (hiff.1 hi)]
      exact hps
    · rw [if_neg hi, if_neg fun hj => hi (hiff.2 hj)]
      exact hparams

theorem SameCalls.setParameter {s' t' : Session} (h : SameCalls s t F s' t') {i j : Nat}
    (hij : SameCall s t i j) (name : String) {v w : Value} (hvw : Alike F v w) :
    SameCalls s t F
      { s' with calls := s'.calls.modify i fun params => Members.assign params name v }
      { t' with calls := t'.calls.modify j fun params => Members.assign params name w } where
  functions := h.functions
  calls := by
    rw [Array.size_modify, Array.size_modify]
    exact h.calls
  params := by
    intro i' j' hij'
    have hparams := h.params i' j' hij'
    have hiff := hij.eq_iff hij'
    rw [Array.getElem?_modify, Array.getElem?_modify]
    by_cases hi : i = i'
    · rw [if_pos hi, if_pos (hiff.1 hi)]
      -- there is such a call in both runs or in neither
      have hsize := hij'.lt_iff h.calls
      by_cases hlt : i' < s'.calls.size
      · rw [Array.getElem?_eq_getElem hlt, Array.getElem?_eq_getElem (hsize.1 hlt)] at hparams ⊢
        exact hparams.assign name hvw
      · rw [Array.getElem?_eq_none (by omega), Array.getElem?_eq_none (by omega)]
        exact .nil
    · rw [if_neg hi, if_neg fun hj => hi (hiff.2 hj)]
      exact hparams

/-! ### What is known of calls -/

/-- Which parameters calls are known to have. -/
abbrev Holding := LocalId → String → Prop

namespace Holding

variable {w w' : Holding} {calls : List LocalId} {held : List String}

/-- In a session the calls do have them. -/
def TrueOf (w : Holding) (s : Session) : Prop :=
  ∀ i name, w i name → (Members.get? (s.calls[i]?.getD []) name).isSome

/-- Every name is known to be a parameter of one of the calls. -/
def Covers (w : Holding) (calls : List LocalId) (held : List String) : Prop :=
  ∀ name ∈ held, ∃ i ∈ calls, w i name

/-- What is known when a call has been entered. -/
def enter (w : Holding) (id : LocalId) (params : List String) : Holding :=
  fun i name => w i name ∨ (i = id ∧ name ∈ params)

theorem le_enter (w : Holding) (id : LocalId) (params : List String) : w ≤ w.enter id params :=
  fun _ _ h => .inl h

theorem covers_nil : w.Covers calls [] := by
  intro name hname
  cases hname

theorem Covers.mono (h : w.Covers calls held) (hw : w ≤ w') : w'.Covers calls held := by
  intro name hname
  obtain ⟨i, hi, hknown⟩ := h name hname
  exact ⟨i, hi, hw i name hknown⟩

/-- In a call its own parameters are known, and those around it. -/
theorem Covers.cons (h : w.Covers calls held) {id : LocalId} {params : List String}
    (hid : ∀ name ∈ params, w id name) : w.Covers (id :: calls) (params.reverse ++ held) := by
  intro name hname
  rcases List.mem_append.1 hname with hname | hname
  · exact ⟨id, List.mem_cons_self, hid name (List.mem_reverse.1 hname)⟩
  · obtain ⟨i, hi, hknown⟩ := h name hname
    exact ⟨i, List.mem_cons_of_mem _ hi, hknown⟩

/-- A name that none of the calls is known to hold is not one of those covered. -/
theorem Covers.of_absent (h : w.Covers calls held) {name : String}
    (habsent : ∀ i ∈ calls, ¬ w i name) {P : Prop} (hname : name ∈ held ∨ P) : P := by
  rcases hname with hheld | hP
  · obtain ⟨i, hi, hknown⟩ := h name hheld
    exact (habsent i hi hknown).elim
  · exact hP

theorem TrueOf.enterCall {s : Session} (h : w.TrueOf s) {params : List String}
    {ps : Members Value} (hps : ∀ name ∈ params, (Members.get? ps name).isSome) :
    (w.enter s.calls.size params).TrueOf { s with calls := s.calls.push ps } := by
  rintro i name (hknown | ⟨rfl, hname⟩)
  · -- the call was there before
    have hold := h i name hknown
    rw [Array.getElem?_push]
    split
    · next hi =>
      subst hi
      rw [Array.getElem?_eq_none (Nat.le_refl _)] at hold
      cases hold
    · exact hold
  · rw [Array.getElem?_push, if_pos rfl]
    exact hps name hname

theorem TrueOf.setParameter {s : Session} (h : w.TrueOf s) (id : LocalId) (root : String)
    (v : Value) :
    w.TrueOf { s with calls := s.calls.modify id fun params => Members.assign params root v } := by
  intro i name hknown
  have hold := h i name hknown
  rw [Array.getElem?_modify]
  split
  · next hi =>
    subst hi
    cases hcall : s.calls[id]? with
    | none => rw [hcall] at hold; cases hold
    | some params =>
      rw [hcall] at hold
      exact Members.isSome_get?_assign root v (.inr hold)
  · exact hold

end Holding

/-! ### New calls -/

theorem bindParameters_alike {F : Callable → Callable → Prop} {args args' : List Value}
    (h : AlikeItems F args args') (params : List String) :
    AlikeMembers F (bindParameters params args) (bindParameters params args') := by
  -- the first parameter takes argument `k`, so that the induction can go on from any argument
  have hall : ∀ (params : List String) (k : Nat), AlikeMembers F
      (params.mapIdx fun i name => (name, args[k + i]?.getD .null))
      (params.mapIdx fun i name => (name, args'[k + i]?.getD .null)) := by
    intro params
    induction params with
    | nil => intro k; exact .nil
    | cons name params ih =>
      intro k
      rw [List.mapIdx_cons, List.mapIdx_cons]
      refine .cons name (Alike.getD (h.getElem? _)) ?_
      have hk := ih (k + 1)
      simp only [Nat.add_assoc, Nat.add_comm 1] at hk
      exact hk
  have hzero := hall params 0
  simp only [Nat.zero_add] at hzero
  exact hzero.ofList

/-- A call has all the parameters of its function, whatever it is called with. -/
theorem get?_bindParameters {params : List String} (args : List Value) {name : String}
    (h : name ∈ params) : (Members.get? (bindParameters params args) name).isSome := by
  obtain ⟨i, hi, rfl⟩ := List.getElem_of_mem h
  exact Members.isSome_get?_extend (.inl ⟨args[i]?.getD .null, List.mem_mapIdx.2 ⟨i, hi, rfl⟩⟩)

end Trellis
