import Trellis.Proofs.Scope.UpdateLaws
import Trellis.Proofs.Value.Focus
import Trellis.Script.Evaluation

/-!
# Storing below parameters and namespaces

A parameter and a namespace that hold the same data are written alike, though each in a way of its
own: where there is a place for the value both hold the same data afterwards, and where there is
none both are left as they were, each with its own words for the reason.

* `Session.parameter?`: what a parameter holds.
* `storeParameter_runOn`, `Store.write_of_data`: either store, by what a replacement makes of the
  data.
* `Session.stores_agree`: both, side by side.
-/

namespace Trellis

/-! ### Below a parameter -/

namespace Session

variable {s : Session} {id : LocalId} {name : String} {old : Value}

/-- The value of a parameter of a call. -/
def parameter? (s : Session) (id : LocalId) (name : String) : Option Value :=
  Members.get? (s.calls[id]?.getD []) name

/-- The session with another value for a parameter. -/
def setParameter (s : Session) (id : LocalId) (name : String) (v : Value) : Session :=
  { s with calls := s.calls.modify id fun params => Members.assign params name v }

theorem parameter?_setParameter (h : s.parameter? id name = some old) (v : Value) :
    (s.setParameter id name v).parameter? id name = some v := by
  unfold parameter? at h ⊢
  rw [setParameter, Array.getElem?_modify, if_pos rfl]
  cases hcall : s.calls[id]? with
  | none => rw [hcall] at h; cases h
  | some params => exact Members.get?_assign_self params name v

end Session

/-- **Storing below a parameter** replaces what is there, or fails for want of a place. -/
theorem storeParameter_runOn {s : Session} {id : LocalId} {root : String} {old : Value}
    (h : s.parameter? id root = some old) (keys : List String) (v : Value) :
    (storeParameter id root keys v).runOn s =
      match old.replace keys v with
      | .ok new => (.ok (), s.setParameter id root new)
      | .error m => (.error (parameterFault m), s) := by
  have hread : (Act.parameters id).runOn s = (.ok (s.calls[id]?.getD []), s) := rfl
  unfold Session.parameter? at h
  unfold storeParameter
  rw [Act.runOn_bind, hread]
  simp only [h, Value.store_eq_replace]
  cases old.replace keys v <;> rfl

/-! ### Below a namespace -/

namespace Store

variable {s : Store} {scope : ScopeId} {ns : String} {old : Value} {keys : List String}

/-- Data that is seen is that of the nearest frame. -/
theorem nearest?_of_data (h : s.spaceData? scope ns = .ok (some old)) :
    ∃ x, s.nearest? scope (.space ns) = .ok (some x) ∧ x.2.data = old := by
  obtain ⟨found, hfound, hdata⟩ := Except.bind_eq_ok.1 h
  cases found with
  | none => cases hdata
  | some x => cases hdata; exact ⟨x, hfound, rfl⟩

/-- **Storing below a namespace** replaces what is there, or fails for want of a place. -/
theorem write_of_data (h : s.spaceData? scope ns = .ok (some old)) (hkeys : keys ≠ []) (v : Value) :
    match old.replace keys v with
    | .ok new => ∃ path t, s.write scope ns keys v = .ok (path, t) ∧
        t.spaceData? scope ns = .ok (some new)
    | .error m => s.write scope ns keys v = .error (writeFault ns m) := by
  obtain ⟨x, hx, rfl⟩ := nearest?_of_data h
  rw [write_of_nearest hx hkeys]
  cases x.2.data.replace keys v with
  | error m => rfl
  | ok new =>
    refine ⟨_, _, rfl, ?_⟩
    rw [spaceData?_modify hx, if_pos rfl]

end Store

/-! ### Side by side -/

/-- **Parameters and namespaces are written alike.** A value is stored below a parameter that holds
an object, and below a namespace that holds the same one. Either both stores succeed, and parameter
and namespace then hold the same data, in which the value is found; or both fail because there is no
place for it, and the session and the store are as they were. -/
theorem Session.stores_agree (s : Session) (id : LocalId) (root : String) (t : Store)
    (scope : ScopeId) (ns : String) {members : Members Value}
    (hlocal : s.parameter? id root = some (.object members))
    (hspace : t.spaceData? scope ns = .ok (some (.object members)))
    {keys : List String} (hkeys : keys ≠ []) (v : Value) :
    (∃ s' path t' new, (storeParameter id root keys v).runOn s = (.ok (), s') ∧
      t.write scope ns keys v = .ok (path, t') ∧ s'.parameter? id root = some new ∧
      t'.spaceData? scope ns = .ok (some new) ∧ new.at? keys = .ok v) ∨
    ∃ m, (Value.object members).Placeless keys m ∧
      (storeParameter id root keys v).runOn s = (.error (parameterFault m), s) ∧
      t.write scope ns keys v = .error (Store.writeFault ns m) ∧
      t.perform (.write scope ns keys v) = t := by
  have hbelow := storeParameter_runOn hlocal keys v
  have hwrite := Store.write_of_data hspace hkeys v
  cases hnew : (Value.object members).replace keys v with
  | ok new =>
    rw [hnew] at hbelow hwrite
    obtain ⟨path, t', hok, hdata⟩ := hwrite
    exact .inl ⟨_, path, t', new, hbelow, hok, parameter?_setParameter hlocal new, hdata,
      Value.at?_of_replace hnew⟩
  | error m =>
    rw [hnew] at hbelow hwrite
    exact .inr ⟨m, Value.replace_error_iff.1 hnew, hbelow, hwrite,
      Store.perform_of_error (congrArg (Except.map Prod.snd) hwrite)⟩

/-- Two rows, the second of which has a lamp. -/
def shelfRows : Members Value := [("rows", .array [.null, .object [("lamp", .bool false)]])]

/-- A call whose parameter is a copy of what is on the shelf. -/
def Session.lent : Session :=
  { Session.new with calls := #[[("copy", .object shelfRows)]] }

/-- The lamp is lit in the copy as on the shelf, and its row is spelled in one way when it is stored
and in another when it is read. A third row is stored in neither. -/
theorem Session.stores_agree_shelf :
    lent.parameter? 0 "copy" = some (.object shelfRows) ∧
    Store.shelf.spaceData? 1 "shelf" = .ok (some (.object shelfRows)) ∧
    (∃ s' path t' new,
      (storeParameter 0 "copy" ["rows", "01", "lamp"] (.bool true)).runOn lent = (.ok (), s') ∧
      Store.shelf.write 1 "shelf" ["rows", "01", "lamp"] (.bool true) = .ok (path, t') ∧
      s'.parameter? 0 "copy" = some new ∧ t'.spaceData? 1 "shelf" = .ok (some new) ∧
      new.at? ["rows", "1", "lamp"] = .ok (.bool true)) ∧
    (storeParameter 0 "copy" ["rows", "2"] .null).runOn lent =
      (.error (.wrongType "index 2 is out of bounds"), lent) ∧
    Store.shelf.write 1 "shelf" ["rows", "2"] .null = .error (.keyMissing "shelf" "2") := by
  have hlocal : lent.parameter? 0 "copy" = some (.object shelfRows) := rfl
  have hspace : Store.shelf.spaceData? 1 "shelf" = .ok (some (.object shelfRows)) := rfl
  refine ⟨hlocal, hspace, ?_, ?_⟩
  · obtain ⟨s', path, t', new, hbelow, hwrite, hcopy, hshelf, -⟩ | ⟨m, -, hbelow, -⟩ :=
      stores_agree lent 0 "copy" Store.shelf 1 "shelf" hlocal hspace
        (List.cons_ne_nil "rows" ["01", "lamp"]) (.bool true)
    · refine ⟨s', path, t', new, hbelow, hwrite, hcopy, hshelf, ?_⟩
      cases hbelow
      cases hcopy
      rfl
    · cases hbelow
  · obtain ⟨s', path, t', new, hbelow, -⟩ | ⟨m, hplace, hbelow, hwrite, -⟩ :=
      stores_agree lent 0 "copy" Store.shelf 1 "shelf" hlocal hspace
        (List.cons_ne_nil "rows" ["2"]) .null
    · cases hbelow
    · cases hplace.replace_eq .null
      exact ⟨hbelow, hwrite⟩

end Trellis
