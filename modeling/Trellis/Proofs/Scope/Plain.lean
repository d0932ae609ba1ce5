import Trellis.Proofs.Scope.Chain
import Trellis.Proofs.Value.Plain
import Trellis.Scope.Handle

/-!
# Scopes without functions

While no function is put into the scopes none is read from them, and what goes wrong in them is no
fault of an expression.

* `Store.Plain`: no function is in what frames hold. Every operation of the store keeps it.
* `Tame`: outcomes that are good values or faults that are none of an expression.
-/

namespace Trellis

open Value

/-- A fault that only reading or evaluating an expression can come to. -/
def Fault.OfExpression : Fault → Prop
  | malformedExpression _ | unsupported _ | undefinedName _ => True
  | _ => False

/-- A value of which `P` holds, or a fault that is none of an expression. -/
def Tame {α : Type} (P : α → Prop) : Except Fault α → Prop
  | .ok a => P a
  | .error e => ¬ e.OfExpression

namespace Tame

variable {α β : Type} {P : α → Prop} {Q : β → Prop} {x : Except Fault α}

theorem mono (h : Tame P x) {P' : α → Prop} (hP : ∀ a, P a → P' a) : Tame P' x := by
  cases x with
  | error e => exact h
  | ok a => exact hP a h

theorem bind (h : Tame P x) {f : α → Except Fault β} (hf : ∀ a, P a → Tame Q (f a)) :
    Tame Q (x >>= f) := by
  cases x with
  | error e => exact h
  | ok a => exact hf a h

theorem map (h : Tame P x) {f : α → β} (hf : ∀ a, P a → Q (f a)) : Tame Q (x.map f) := by
  cases x with
  | error e => exact h
  | ok a => exact hf a h

end Tame

namespace Store

/-- No function is in what frames hold. -/
def Plain (s : Store) : Prop :=
  ∀ e ∈ s.frames, e.2.data.Plain

variable {s t : Store} {scope id : ScopeId} {f : Frame}

theorem plain_new : Store.new.Plain := by
  intro e he
  rw [List.mem_singleton.1 he]
  trivial

theorem Plain.frame? (h : s.Plain) (hf : s.frame? id = some f) : f.data.Plain := by
  obtain ⟨l₁, l₂, hl, -⟩ := List.lookup_eq_some_iff.1 hf
  exact h (id, f) (hl ▸ List.mem_append_right _ List.mem_cons_self)

theorem Plain.modify (h : s.Plain) {g : Frame → Frame}
    (hg : ∀ f, f.data.Plain → (g f).data.Plain) : (s.modify id g).Plain := by
  intro e he
  obtain ⟨e₀, he₀, rfl⟩ := List.mem_map.1 he
  split
  · exact hg _ (h e₀ he₀)
  · exact h e₀ he₀

/-! ### Reading -/

theorem Plain.nearest? (h : s.Plain) (kind : FrameKind) :
    Tame (fun found => ∀ e ∈ found, e.2.data.Plain) (s.nearest? scope kind) := by
  unfold Store.nearest?
  simp only
  split
  · next e hfind =>
    intro e' he'
    cases he'
    exact h.frame? (frame?_of_mem_chainFrom (List.mem_of_find?_eq_some hfind))
  · split
    · exact nofun
    · exact id

theorem Plain.spaceData? (h : s.Plain) (ns : String) :
    Tame (fun data => ∀ v ∈ data, v.Plain) (s.spaceData? scope ns) := by
  refine (h.nearest? (.space ns)).bind fun found hfound => ?_
  cases found with
  | none => exact nofun
  | some e =>
    intro v hv
    cases hv
    exact hfound e rfl

theorem Plain.space (h : s.Plain) (ns : String) :
    Tame (fun e => e.2.data.Plain) (s.space scope ns) := by
  refine (h.nearest? (.space ns)).bind fun found hfound => ?_
  cases found with
  | none => exact id
  | some e => exact hfound e rfl

theorem Plain.slotFrame (h : s.Plain) (ns slot : String) :
    Tame (fun e => e.2.data.Plain) (s.slotFrame scope ns slot) := by
  refine (h.nearest? (.slot ns slot)).bind fun found hfound => ?_
  cases found with
  | none => exact id
  | some e => exact hfound e rfl

/-- **Reading** comes to no function. -/
theorem Plain.get (h : s.Plain) (path : Path) : Tame Value.Plain (s.get scope path) := by
  unfold Store.get
  cases path.slot
  -- either way the rest of the path leads on from the data of a frame
  all_goals
    first
      | refine (h.space path.ns).bind ?_
      | refine (h.slotFrame path.ns _).bind ?_
    rintro ⟨_, f⟩ hf
    simp only
    split
    · next hv => exact Value.Plain.at? path.keys hf hv
    · exact id

/-! ### Opening and changing -/

theorem Plain.openFrame (h : s.Plain) (parent : ScopeId) (segment : String) (kind : FrameKind) :
    Tame (fun r => r.2.Plain) (s.openFrame parent segment kind) := by
  unfold Store.openFrame
  split
  · exact id
  simp only
  split
  · split
    · exact id
    · split
      · exact h.modify fun _ hf => hf
      · exact h.modify fun _ _ => trivial
  · exact List.forall_mem_cons.2 ⟨trivial, h⟩

theorem Plain.openSlot (h : s.Plain) (owner : ScopeId) (ns slot : String) {given : Value}
    (hgiven : given.Plain) : Tame (fun r => r.2.Plain) (s.openSlot owner ns slot given) :=
  (h.openFrame owner _ _).bind fun _ hr => Plain.modify hr fun _ _ => hgiven

theorem plain_extend (hf : f.data.Plain) {members : Members Value} (hm : PlainMembers members) :
    (f.extend members).data.Plain := by
  obtain ⟨path, parent, kind, data, epoch⟩ := f
  unfold Frame.extend
  cases data
  case object old => exact PlainMembers.extend hf hm
  all_goals exact hm

theorem Plain.addData (h : s.Plain) (ns : String) {members : Members Value}
    (hm : PlainMembers members) : Tame Store.Plain (s.addData scope ns members) :=
  (h.space ns).bind fun _ _ => h.modify fun _ hf => plain_extend hf hm

theorem Plain.setLoop (h : s.Plain) {v : Value} (hv : v.Plain) :
    Tame Store.Plain (s.setLoop scope v) := by
  unfold Store.setLoop
  split
  · exact id
  · next f hf =>
    have hdata := h.frame? hf
    split
    · next members hk hd =>
      rw [hd] at hdata
      exact h.modify fun _ _ => PlainMembers.assign hdata loopKey hv
    · exact id

theorem Plain.write (h : s.Plain) {ns : String} {keys : List String} {v : Value} (hv : v.Plain) :
    Tame (fun r => r.2.Plain) (s.write scope ns keys v) := by
  unfold Store.write
  split
  · exact id
  · refine (h.space ns).bind fun e he => ?_
    obtain ⟨id, f⟩ := e
    simp only
    cases hr : f.data.replace keys v with
    | ok data => exact h.modify fun _ _ => Value.Plain.replace he hv hr
    | error misplaced => cases misplaced <;> exact nofun

theorem Plain.beginPass (h : s.Plain) : s.beginPass.Plain :=
  Plain.modify (s := { s with epoch := s.epoch + 1 }) h fun _ hf => hf

theorem Plain.finishPass (h : s.Plain) : s.finishPass.2.Plain :=
  fun e he => h e (List.mem_filter.1 he).1

end Store

end Trellis
