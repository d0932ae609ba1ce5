import Trellis.Proofs.Scope.UpdateLaws

/-!
# What subscribers are told

Operations on a handle one after the other. Whether an operation is a write that succeeds is a matter
of its store alone, and so is the list of those that were made in a run. The revision counts them, and
what subscribers were told is that list, each write told to those who were there for it.

* `Handle.Operation`, `Handle.attempt`, `Handle.run`: operations and runs of them.
* `Handle.writeOf?`, `Handle.written`: the writes that succeeded, as the store says.
* `Handle.Written.told`, `Handle.told`: what subscribers are told of them.
* `Handle.run_exact`: what they were told is that. `Handle.read_written`: what they read meanwhile.
-/

namespace Trellis

namespace Handle

/-- What can be asked of a handle: to be told of writes, whatever can be asked of its store, and a
write at a path. -/
inductive Operation where
  | subscribe
  | ask (op : Store.Operation)
  | writePath (scope : ScopeId) (path : Path) (v : Value)

/-- What an operation makes of a handle. A write goes through the handle, anything else that is asked
of the store does not. -/
def attempt (h : Handle) : Operation → Except Fault Handle
  | .subscribe => .ok h.subscribe.2
  | .ask (.write scope ns keys v) => h.write scope ns keys v
  | .ask op => (h.store.attempt op).map fun s => { h with store := s }
  | .writePath scope path v => h.writePath scope path v

/-- The handle after an operation. -/
def perform (h : Handle) (op : Operation) : Handle :=
  match h.attempt op with
  | .ok h' => h'
  | .error _ => h

/-- The handle after operations. -/
def run (h : Handle) (ops : List Operation) : Handle :=
  ops.foldl perform h

variable {h h' : Handle} {op : Operation}

theorem run_append (h : Handle) (ops more : List Operation) :
    h.run (ops ++ more) = (h.run ops).run more :=
  List.foldl_append

theorem perform_of_ok (ha : h.attempt op = .ok h') : h.perform op = h' := by
  rw [perform, ha]

theorem perform_of_error {e : Fault} (ha : h.attempt op = .error e) : h.perform op = h := by
  rw [perform, ha]

/-! ### Writes that succeed -/

/-- A member and what it is to be. -/
structure Request where
  scope : ScopeId
  ns : String
  keys : List String
  value : Value

/-- What an operation would write. What a slot was given is not written to. -/
def Operation.request? : Operation → Option Request
  | .ask (.write scope ns keys v) => some ⟨scope, ns, keys, v⟩
  | .writePath scope path v => if path.slot.isSome then none else some ⟨scope, path.ns, path.keys, v⟩
  | _ => none

/-- A write that succeeded: the address of the member, how many had subscribed by then, and the store
it left. -/
structure Written extends Request where
  address : String
  present : Nat
  store : Store

/-- The write that an operation is, if it is one and the store lets it succeed. -/
def writeOf? (h : Handle) (op : Operation) : Option Written :=
  op.request?.bind fun r =>
    match h.store.write r.scope r.ns r.keys r.value with
    | .ok (address, store) => some ⟨r, address, h.subscribers, store⟩
    | .error _ => none

/-- The writes that succeeded in a run, in order. -/
def written (h : Handle) : List Operation → List Written
  | [] => []
  | op :: ops => (h.writeOf? op).toList ++ (h.perform op).written ops

/-- What is told of a write, which is the one of that number: each who is there is told of it once,
one after the other, with the store as it is then. -/
def Written.told (w : Written) (number : Nat) : List Delivery :=
  (List.range w.present).map fun n => ⟨n, ⟨w.scope, w.address, w.value, number⟩, w.store⟩

/-- What is told of writes after `revision` others: of each in turn, with consecutive numbers. -/
def told (revision : Nat) : List Written → List Delivery
  | [] => []
  | w :: ws => w.told (revision + 1) ++ told (revision + 1) ws

/-! ### One operation -/

/-- A write of the handle is a write of its store, and tells of it. -/
theorem write_eq (h : Handle) (r : Request) :
    h.write r.scope r.ns r.keys r.value =
      (h.store.write r.scope r.ns r.keys r.value).map fun e =>
        { store := e.2
          revision := h.revision + 1
          subscribers := h.subscribers
          deliveries := h.deliveries ++
            Written.told ⟨r, e.1, h.subscribers, e.2⟩ (h.revision + 1) } := by
  unfold Handle.write
  cases h.store.write r.scope r.ns r.keys r.value <;> rfl

/-- An operation that requests a write is that write. -/
theorem attempt_of_request {r : Request} (hr : op.request? = some r) :
    h.attempt op = h.write r.scope r.ns r.keys r.value := by
  cases op with
  | subscribe => cases hr
  | ask op =>
    cases op with
    | write scope ns keys v => cases hr; rfl
    | _ => cases hr
  | writePath scope path v =>
    change h.writePath scope path v = _
    unfold writePath
    simp only [Operation.request?] at hr
    split at hr
    · cases hr
    · next hslot =>
      cases hr
      rw [if_neg hslot]

/-- What is asked of the store and is no write changes it without a word. -/
theorem attempt_ask {op : Store.Operation} (hop : (Operation.ask op).request? = none) :
    h.attempt (.ask op) = (h.store.attempt op).map fun s => { h with store := s } := by
  cases op with
  | write scope ns keys v => cases hop
  | _ => rfl

/-- **A write that succeeds** counts, and is told. -/
theorem perform_of_writeOf? {w : Written} (hw : h.writeOf? op = some w) :
    h.perform op =
      ⟨w.store, h.revision + 1, h.subscribers, h.deliveries ++ w.told (h.revision + 1)⟩ := by
  obtain ⟨r, hr, hstore⟩ := Option.bind_eq_some_iff.1 hw
  split at hstore
  · next address store hok =>
    cases hstore
    refine perform_of_ok ?_
    rw [attempt_of_request hr, write_eq, hok]
    rfl
  · cases hstore

/-- **Anything else**, and a write that fails, counts for nothing and is told to nobody. -/
theorem perform_of_not_writeOf? (hw : h.writeOf? op = none) :
    (h.perform op).revision = h.revision ∧ (h.perform op).deliveries = h.deliveries := by
  cases hr : op.request? with
  | some r =>
    have hfails : ∃ e, h.attempt op = .error e := by
      unfold writeOf? at hw
      rw [hr, Option.bind_some] at hw
      split at hw
      · cases hw
      · next e he =>
        refine ⟨e, ?_⟩
        rw [attempt_of_request hr, write_eq, he]
        rfl
    obtain ⟨e, he⟩ := hfails
    rw [perform_of_error he]
    exact ⟨rfl, rfl⟩
  | none =>
    cases ha : h.attempt op with
    | error e =>
      rw [perform_of_error ha]
      exact ⟨rfl, rfl⟩
    | ok h' =>
      rw [perform_of_ok ha]
      cases op with
      | subscribe => cases ha; exact ⟨rfl, rfl⟩
      | ask op =>
        rw [attempt_ask hr] at ha
        obtain ⟨s, -, rfl⟩ := Except.map_eq_ok.1 ha
        exact ⟨rfl, rfl⟩
      | writePath scope path v =>
        simp only [Operation.request?] at hr
        split at hr
        · next hslot =>
          simp only [attempt, writePath, if_pos hslot] at ha
          cases ha
        · cases hr

/-- An operation that requests no write, or one that the store refuses, is no write. -/
theorem writeOf?_eq_none (hw : ∀ r, op.request? = some r →
    ∃ e, h.store.write r.scope r.ns r.keys r.value = .error e) : h.writeOf? op = none := by
  unfold writeOf?
  cases hr : op.request? with
  | none => rfl
  | some r =>
    obtain ⟨e, he⟩ := hw r hr
    rw [Option.bind_some, he]

/-! ### Runs -/

/-- **Runs.** The revision counts the writes that succeeded, and those are what subscribers were
told. -/
theorem run_exact (h : Handle) (ops : List Operation) :
    (h.run ops).revision = h.revision + (h.written ops).length ∧
      (h.run ops).deliveries = h.deliveries ++ told h.revision (h.written ops) := by
  induction ops generalizing h with
  | nil => exact ⟨rfl, (List.append_nil _).symm⟩
  | cons op ops ih =>
    obtain ⟨hrevision, hdeliveries⟩ := ih (h.perform op)
    change ((h.perform op).run ops).revision = _ ∧ ((h.perform op).run ops).deliveries = _
    rw [hrevision, hdeliveries, written]
    cases hw : h.writeOf? op with
    | some w =>
      rw [perform_of_writeOf? hw]
      simp only [Option.toList_some, List.singleton_append, List.length_cons]
      refine ⟨by omega, ?_⟩
      rw [told, List.append_assoc]
    | none =>
      obtain ⟨hr, hd⟩ := perform_of_not_writeOf? hw
      rw [hr, hd]
      exact ⟨rfl, rfl⟩

/-- **What was written** is read in the store that subscribers see. -/
theorem read_written {ops : List Operation} {w : Written} (hw : w ∈ h.written ops) :
    w.store.get w.scope ⟨w.ns, none, w.keys⟩ = .ok w.value := by
  induction ops generalizing h with
  | nil => cases hw
  | cons op ops ih =>
    rcases List.mem_append.1 hw with hw | hw
    · obtain ⟨r, -, hstore⟩ := Option.bind_eq_some_iff.1 (Option.mem_toList.1 hw)
      split at hstore
      · next address store hok =>
        cases hstore
        obtain ⟨_, _, _, hupdated⟩ := Store.updated_of_write hok
        have hread := hupdated.written []
        rw [List.append_nil] at hread
        exact hread
      · cases hstore
    · exact ih hw

end Handle

end Trellis
