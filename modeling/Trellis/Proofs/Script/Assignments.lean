import Trellis.Proofs.Scope.Notices
import Trellis.Proofs.Script.Effects

/-!
# Assignments

What an assignment does to the scopes once its operands were evaluated. One below a namespace is one
write of the handle, which is tried once and with the value that was assigned; none if the operands
fail or if the left side settles the outcome. One below a parameter is none, and neither is one to a
namespace itself.

* `Session.held?`, `Act.holder?_runOn`: whether a name is that of a parameter in sight.
* `AssignsOnce`: an assignment below a namespace, by what its operands came to.
* `assignTo_once`, `assignTo_nil`, `assignTo_held`: the three kinds of targets;
  `assignTo_settled`: an assignment that stores nothing.
-/

namespace Trellis

open Act

variable {p : Place} {op : AssignOp} {root : String} {keys : List String} {right : Act Value}

/-! ### Parameters in sight -/

/-- The innermost of the calls that has a parameter of the name, and the parameter's value. -/
def Session.held? (s : Session) (name : String) (calls : List LocalId) : Option (LocalId × Value) :=
  calls.findSome? fun id => (Members.get? (s.calls[id]?.getD []) name).map fun v => (id, v)

/-- **Looking for a parameter** finds what the session has. -/
theorem Act.holder?_runOn (name : String) (calls : List LocalId) (s : Session) :
    (holder? name calls).runOn s = (.ok (s.held? name calls), s) := by
  induction calls with
  | nil => rfl
  | cons id outer ih =>
    have hread : (parameters id).runOn s = (.ok (s.calls[id]?.getD []), s) := rfl
    rw [holder?, runOn_bind, hread]
    unfold Session.held?
    rw [List.findSome?_cons]
    simp only
    cases Members.get? (s.calls[id]?.getD []) name with
    | some v => rfl
    | none => exact ih

variable {s : Session}

/-- A name that no parameter has is that of a namespace. -/
theorem assignTo_space (h : s.held? root p.calls = none) :
    (assignTo p op root keys right).runOn s = (assignSpace p op root keys right).runOn s := by
  unfold assignTo
  rw [runOn_bind, holder?_runOn, h]

theorem assignTo_parameter {id : LocalId} {v : Value} (h : s.held? root p.calls = some (id, v)) :
    (assignTo p op root keys right).runOn s = (assignParameter id op root keys right).runOn s := by
  unfold assignTo
  rw [runOn_bind, holder?_runOn, h]

/-! ### Writing -/

/-- Where a namespace is not found nothing is written to it. -/
theorem Handle.write_of_unseen {h : Handle} {scope : ScopeId} {ns : String}
    (hunseen : ∀ data, h.store.spaceData? scope ns ≠ .ok (some data)) (keys : List String)
    (v : Value) : ∃ e, h.write scope ns keys v = .error e := by
  have hsame := h.write_rewritten scope ns keys v
  have hfails : ∃ e, rewritten (h.store.spaceData? scope ns) ns keys v = .error e := by
    unfold rewritten
    split
    · exact ⟨_, rfl⟩
    · cases hdata : h.store.spaceData? scope ns with
      | error e => exact ⟨e, rfl⟩
      | ok found =>
        cases found with
        | none => exact ⟨_, rfl⟩
        | some data => exact absurd hdata (hunseen data)
  obtain ⟨e, he⟩ := hfails
  rw [he] at hsame
  cases hw : h.write scope ns keys v with
  | error e => exact ⟨e, rfl⟩
  | ok h' =>
    rw [hw] at hsame
    exact hsame.elim

/-- **Storing** below a namespace is one write, and fails if that does. -/
theorem Place.store_runOn (p : Place) (root : String) (keys : List String) (v : Value)
    (s : Session) :
    match s.handle.write p.scope root keys v with
    | .ok h => (p.store root keys v).runOn s = (.ok (), { s with handle := h })
    | .error _ => ∃ e, (p.store root keys v).runOn s = (.error e, s) := by
  -- a namespace that is not found is looked at, and the write does not come about
  have hunseen : (∀ data, s.handle.store.spaceData? p.scope root ≠ .ok (some data)) →
      ∃ e, (p.store root keys v).runOn s = (.error e, s) := by
    intro hnone
    unfold Place.store
    rw [runOn_bind, runOn_scopes]
    cases hdata : s.handle.store.spaceData? p.scope root with
    | error e => exact ⟨e, rfl⟩
    | ok found =>
      cases found with
      | none => exact ⟨_, rfl⟩
      | some data => exact absurd hdata (hnone data)
  by_cases hseen : ∃ data, s.handle.store.spaceData? p.scope root = .ok (some data)
  · obtain ⟨data, hdata⟩ := hseen
    have hrun : (p.store root keys v).runOn s =
        (writing (·.write p.scope root keys v)).runOn s := by
      unfold Place.store
      rw [runOn_bind, runOn_scopes, hdata]
    rw [hrun, runOn_writing]
    cases s.handle.write p.scope root keys v with
    | ok h => rfl
    | error e => exact ⟨e, rfl⟩
  · have hnone : ∀ data, s.handle.store.spaceData? p.scope root ≠ .ok (some data) :=
      fun data hdata => hseen ⟨data, hdata⟩
    obtain ⟨e, he⟩ := Handle.write_of_unseen hnone keys v
    rw [he]
    exact hunseen hnone

/-- What an assignment below a namespace comes to, by what its operands came to: it fails as they
do; it does nothing more if the left side settled the outcome; and otherwise it is one write of the
value, from where the operands left off. -/
def AssignsOnce (p : Place) (root : String) (keys : List String)
    (done : Except Fault Value × Session) : Except Fault (Option Value) × Session → Prop
  | (.error e, t) => done = (.error e, t)
  | (.ok none, t) => done.2 = t
  | (.ok (some v), t) =>
    match t.handle.write p.scope root keys v with
    | .ok h => done = (.ok v, { t with handle := h })
    | .error _ => ∃ e, done = (.error e, t)

/-! ### Assigning -/

/-- **An assignment below a namespace.** -/
theorem assignTo_once (hroot : s.held? root p.calls = none) (hkeys : keys ≠ []) :
    AssignsOnce p root keys ((assignTo p op root keys right).runOn s)
      ((op.combine (p.member root keys) right).runOn s) := by
  rw [assignTo_space hroot, assignSpace, if_neg (by simpa using hkeys), runOn_bind]
  rcases (op.combine (p.member root keys) right).runOn s with ⟨e | stored, t⟩
  · exact rfl
  cases stored with
  | none => exact (p.member_keeps (R := Eq) root keys t).symm
  | some v =>
    have hstore := p.store_runOn root keys v t
    simp only [AssignsOnce, runOn_bind]
    cases hw : t.handle.write p.scope root keys v with
    | ok h =>
      rw [hw] at hstore
      simp only at hstore ⊢
      rw [hstore]
      rfl
    | error e =>
      rw [hw] at hstore
      obtain ⟨e, he⟩ := hstore
      exact ⟨e, by rw [he]⟩

/-- **An assignment that is settled** by its left side changes nothing. -/
theorem assignTo_settled (hroot : s.held? root p.calls = none) (hkeys : keys ≠ []) {l : LogicalOp}
    {v : Value} (hv : ((p.member root keys).runOn s).1 = .ok v) (hkeep : l.keeps v = true) :
    (assignTo p (.logical l) root keys right).runOn s = (.ok v, s) := by
  have hread : (p.member root keys).runOn s = (.ok v, s) :=
    Prod.ext hv (p.member_keeps (R := Eq) root keys s).symm
  have hcombine : (AssignOp.combine (p.member root keys) right (.logical l)).runOn s =
      (.ok none, s) := by
    unfold AssignOp.combine
    rw [runOn_bind, hread]
    simp only [hkeep, if_true]
    rfl
  rw [assignTo_space hroot, assignSpace, if_neg (by simpa using hkeys), runOn_bind, hcombine]
  exact hread

/-- **A namespace itself** is not assigned to. -/
theorem assignTo_nil (hroot : s.held? root p.calls = none) :
    ∃ e, (assignTo p op root [] right).runOn s = (.error e, s) := by
  rw [assignTo_space hroot]
  change ∃ e, (p.refuse root).runOn s = (.error e, s)
  unfold Place.refuse
  rw [runOn_bind, runOn_scopes]
  rcases s.handle.store.spaceData? p.scope root with e | _ | data
  · exact ⟨e, rfl⟩
  · exact ⟨_, rfl⟩
  · exact ⟨_, rfl⟩

/-- Storing below a parameter is no matter of the scopes. -/
theorem storeParameter_handle (id : LocalId) (root : String) (keys : List String) (v : Value)
    (s : Session) : ((storeParameter id root keys v).runOn s).2.handle = s.handle := by
  have hread : (parameters id).runOn s = (.ok (s.calls[id]?.getD []), s) := rfl
  unfold storeParameter
  rw [runOn_bind, hread]
  simp only
  cases Members.get? (s.calls[id]?.getD []) root with
  | none => rfl
  | some old =>
    simp only
    cases old.store keys v <;> rfl

/-- **An assignment to a parameter** writes nothing. -/
theorem assignTo_held {id : LocalId} {old : Value}
    (hroot : s.held? root p.calls = some (id, old)) :
    ((assignTo p op root keys right).runOn s).2.handle =
      ((op.combine (parameterMember id root keys) right).runOn s).2.handle := by
  rw [assignTo_parameter hroot, assignParameter, runOn_bind]
  rcases (op.combine (parameterMember id root keys) right).runOn s with ⟨e | stored, t⟩
  · rfl
  cases stored with
  | none => exact congrArg Session.handle (parameterMember_keeps (R := Eq) id root keys t).symm
  | some v =>
    have hstore := storeParameter_handle id root keys v t
    simp only [runOn_bind]
    revert hstore
    rcases (storeParameter id root keys v).runOn t with ⟨_ | _, u⟩ <;> exact fun h => h

end Trellis
