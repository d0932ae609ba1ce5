import Trellis.Scope.Handle

/-!
# Sessions

What evaluating and building read and change: the scopes, the parameters of the calls made so far,
two counters, and the frames entered. A fault does not undo what was done before it.

* `Act`: a computation on a session that may fail.
* `Act.scopes`, `Act.opening`, `Act.writing`: the operations of the store as acts. One that fails
  changes nothing.
* `Act.runOn_bind`: acts in sequence.
* `Act.enterCall`, `Act.holder?`: parameters live under numbers that are never given twice, so that
  every function made in a call shares them.
-/

namespace Trellis

/-- The scopes, the parameters of each call, the next number of a function, how often functions
that count were called, and the frames entered since the last pass began, last one first. Nothing
depends on the latter: it is what statements about a whole pass are about. -/
structure Session where
  handle : Handle
  calls : Array (Members Value)
  nextFunction : Nat
  counted : Nat
  visits : List Visit

/-- Nothing written, nothing called. -/
def Session.new : Session := ⟨.new, #[], 0, 0, []⟩

/-- A computation on a session that may fail; the session it leaves stands even then. -/
abbrev Act (α : Type) : Type := ExceptT Fault (StateM Session) α

namespace Act

/-- Runs an act. -/
def runOn {α : Type} (act : Act α) (s : Session) : Except Fault α × Session :=
  act.run.run s

variable {α β : Type}

@[simp] theorem runOn_pure (a : α) (s : Session) : (pure a : Act α).runOn s = (.ok a, s) := rfl

@[simp] theorem runOn_throw (e : Fault) (s : Session) :
    (throw e : Act α).runOn s = (.error e, s) := rfl

/-- One act after another: the second begins in the session the first leaves, unless that failed. -/
@[simp] theorem runOn_bind (act : Act α) (next : α → Act β) (s : Session) :
    (act >>= next).runOn s =
      match act.runOn s with
      | (.ok a, t) => (next a).runOn t
      | (.error e, t) => (.error e, t) := by
  simp only [runOn, ExceptT.run_bind, StateT.run_bind]
  rcases act.run.run s with ⟨_ | _, _⟩ <;> rfl

/-- The outcome of what touches no session. -/
def ofExcept {α : Type} : Except Fault α → Act α
  | .ok a => pure a
  | .error e => throw e

@[simp] theorem runOn_ofExcept (r : Except Fault α) (s : Session) :
    (ofExcept r).runOn s = (r, s) := by
  cases r <;> rfl

/-- Asks the store. -/
def scopes {α : Type} (ask : Store → Except Fault α) : Act α := do
  ofExcept (ask (← get).handle.store)

/-- Asking changes nothing. -/
@[simp] theorem runOn_scopes (ask : Store → Except Fault α) (s : Session) :
    (scopes ask).runOn s = (ask s.handle.store, s) := by
  show (ofExcept (ask s.handle.store)).runOn s = _
  exact runOn_ofExcept _ s

/-- Changes the store without telling its subscribers. -/
def opening {α : Type} (change : Store → Except Fault (α × Store)) : Act α := do
  let s ← get
  let (a, store) ← ofExcept (change s.handle.store)
  set { s with handle := { s.handle with store := store } }
  return a

/-- A change that fails leaves the session as it was. -/
theorem runOn_opening (change : Store → Except Fault (α × Store)) (s : Session) :
    (opening change).runOn s =
      match change s.handle.store with
      | .ok (a, store) => (.ok a, { s with handle := { s.handle with store := store } })
      | .error e => (.error e, s) := by
  show (ofExcept (change s.handle.store) >>= fun r => _).runOn s = _
  rw [runOn_bind, runOn_ofExcept]
  cases change s.handle.store <;> rfl

/-- Changes the store and tells its subscribers. -/
def writing (change : Handle → Except Fault Handle) : Act Unit := do
  let s ← get
  let handle ← ofExcept (change s.handle)
  set { s with handle := handle }

/-- A write that fails leaves the session as it was. -/
theorem runOn_writing (change : Handle → Except Fault Handle) (s : Session) :
    (writing change).runOn s =
      match change s.handle with
      | .ok handle => (.ok (), { s with handle := handle })
      | .error e => (.error e, s) := by
  show (ofExcept (change s.handle) >>= fun h => _).runOn s = _
  rw [runOn_bind, runOn_ofExcept]
  cases change s.handle <;> rfl

/-- Begins a pass, in which no frame has been entered yet. -/
def beginPass : Act Unit :=
  modify fun s =>
    { s with handle := { s.handle with store := s.handle.store.beginPass }, visits := [] }

/-- Takes down that a frame was entered. -/
def visit (v : Visit) : Act Unit :=
  modify fun s => { s with visits := v :: s.visits }

/-- A number no function has yet. -/
def freshFunction : Act Nat :=
  modifyGet fun s => (s.nextFunction, { s with nextFunction := s.nextFunction + 1 })

/-- Counts one call of a function that counts. -/
def count : Act Nat :=
  modifyGet fun s => (s.counted + 1, { s with counted := s.counted + 1 })

/-- Keeps the parameters of a call and numbers them. -/
def enterCall (params : Members Value) : Act LocalId :=
  modifyGet fun s => (s.calls.size, { s with calls := s.calls.push params })

/-- The parameters of a call. -/
def parameters (id : LocalId) : Act (Members Value) := do
  return (← get).calls[id]?.getD []

/-- Gives a parameter a value. -/
def setParameter (id : LocalId) (name : String) (v : Value) : Act Unit :=
  modify fun s => { s with calls := s.calls.modify id fun params => Members.assign params name v }

/-- The innermost call with a parameter of a name, and the parameter's value. -/
def holder? (name : String) : List LocalId → Act (Option (LocalId × Value))
  | [] => return none
  | id :: outer => do
    match Members.get? (← parameters id) name with
    | some v => return some (id, v)
    | none => holder? name outer

end Act

end Trellis
