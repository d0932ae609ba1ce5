import Trellis.Scope.Store

/-!
# Writes and their subscribers

A handle is a store together with the number of writes so far and what its subscribers were told.
Every successful write raises the revision by one and is told to each subscriber once, in the order
in which they subscribed, when the store already holds the new value. Opening frames, seeding them
and passes tell nobody.
-/

namespace Trellis

/-- A successful write: from which scope, where, what, and its number. -/
structure Change where
  scope : ScopeId
  path : String
  value : Value
  revision : Nat

/-- A change as one subscriber is told of it, with the store as it is then. -/
structure Delivery where
  subscriber : Nat
  change : Change
  seen : Store

/-- A store with its revision, its subscribers and what they were told, oldest first. -/
structure Handle where
  store : Store
  revision : Nat
  subscribers : Nat
  deliveries : List Delivery

namespace Handle

/-- A new store that nobody has subscribed to. -/
def new : Handle := ⟨.new, 0, 0, []⟩

variable (h : Handle)

/-- Adds a subscriber and returns its number. -/
def subscribe : Nat × Handle :=
  (h.subscribers, { h with subscribers := h.subscribers + 1 })

/-- Tells every subscriber of a change. -/
def notify (change : Change) : Handle :=
  { h with deliveries := h.deliveries ++
      (List.range h.subscribers).map fun n => ⟨n, change, h.store⟩ }

/-- Writes a member of the nearest frame of a namespace. -/
def write (scope : ScopeId) (ns : String) (keys : List String) (value : Value) :
    Except Fault Handle := do
  let (path, store) ← h.store.write scope ns keys value
  let revision := h.revision + 1
  return { h with store := store, revision := revision }.notify ⟨scope, path, value, revision⟩

/-- Writes at a path. What a slot was given is not written to. -/
def writePath (scope : ScopeId) (path : Path) (value : Value) : Except Fault Handle :=
  if path.slot.isSome then .error (.invalidPath path.text)
  else h.write scope path.ns path.keys value

/-- The changes one subscriber was told of, oldest first. -/
def heard (subscriber : Nat) : List Delivery :=
  h.deliveries.filter fun d => d.subscriber = subscriber

end Handle

end Trellis
