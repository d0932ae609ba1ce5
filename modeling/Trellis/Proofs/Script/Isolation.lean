import Trellis.Proofs.Script.Lockstep

/-!
# Isolation of scripts

Two runs of a script, begun in sessions that look alike from its scope, go in step: the functions
they make and the calls they enter correspond by their distance from the first. So the outcome of a
script depends on nothing but the data of the namespaces around it, and that is all it changes.

* `Twin`: corresponding functions.
* `InStep`: what two runs keep, step by step.
* `Script.run_isolated`: scripts.
-/

namespace Trellis

open Value Act

/-- Functions that are equally far from the first one of two runs begun in `s` and `t`, and that
are otherwise the same, made in corresponding calls. -/
inductive Twin (s t : Session) (scope : ScopeId) : Callable → Callable → Prop
  | lambda (n : Nat) (params : List String) (body : Body) {calls calls' : List LocalId}
    (h : List.Forall₂ (SameCall s t) calls calls') :
    Twin s t scope (.lambda (s.nextFunction + n) params body calls scope)
      (.lambda (t.nextFunction + n) params body calls' scope)

/-- Values that are the same up to corresponding functions. -/
abbrev Twins (s t : Session) (scope : ScopeId) : Value → Value → Prop :=
  Alike (Twin s t scope)

/-- What two runs begun in `s` and `t` have come to, if they go in step. -/
structure InStep (s t : Session) (scope : ScopeId) (s' t' : Session) : Prop where
  functions : ∃ n, s'.nextFunction = s.nextFunction + n ∧ t'.nextFunction = t.nextFunction + n
  calls : SameCall s t s'.calls.size t'.calls.size
  params : ∀ i j, SameCall s t i j →
    AlikeMembers (Twin s t scope) (s'.calls[i]?.getD []) (t'.calls[j]?.getD [])
  sight : Store.SameSight (Twins s t scope) scope s'.handle.store t'.handle.store
  left : Store.WithinSight scope s.handle.store s'.handle.store
  right : Store.WithinSight scope t.handle.store t'.handle.store

variable {s t : Session} {scope : ScopeId}

theorem Twin.faithful : Faithful (Twin s t scope) where
  name := by rintro _ _ ⟨⟩; rfl
  id := by
    rintro _ _ _ _ ⟨n⟩ ⟨m⟩
    simp only [Callable.id]
    omega

/-- Sessions that look alike from the scope are in step with themselves. -/
theorem InStep.start (h : Store.SameSight (fun v w => v = w ∧ v.Plain) scope s.handle.store
    t.handle.store) : InStep s t scope s t where
  functions := (SameCalls.start (F := Twin s t scope)).functions
  calls := (SameCalls.start (F := Twin s t scope)).calls
  params := SameCalls.start.params
  sight := h.mono fun v w (hvw : v = w ∧ v.Plain) => hvw.1 ▸ Alike.refl hvw.2
  left := .refl
  right := .refl

/-- **Writes** go in step, and stay within sight of the scope. -/
theorem InStep.write {s' t' : Session} (h : InStep s t scope s' t') (ns : String)
    (keys : List String) {v w : Value} (hvw : Twins s t scope v w) :
    SameOutcome (fun h h' => InStep s t scope { s' with handle := h } { t' with handle := h' })
      (s'.handle.write scope ns keys v) (t'.handle.write scope ns keys w) := by
  have halike := Store.write_alike h.sight ns keys hvw
  -- both writes fail, or both succeed
  cases hs : s'.handle.store.write scope ns keys v with
  | error e =>
    cases ht : t'.handle.store.write scope ns keys w with
    | error e' =>
      rw [hs, ht] at halike
      rw [Handle.write_error hs, Handle.write_error ht]
      exact halike
    | ok r => rw [hs, ht] at halike; exact halike.elim
  | ok r =>
    cases ht : t'.handle.store.write scope ns keys w with
    | error e => rw [hs, ht] at halike; exact halike.elim
    | ok r' =>
      rw [hs, ht] at halike
      obtain ⟨h₁, hw₁, hst₁, -⟩ := Handle.write_ok hs
      obtain ⟨h₂, hw₂, hst₂, -⟩ := Handle.write_ok ht
      rw [hw₁, hw₂]
      refine ⟨h.functions, h.calls, h.params, ?_, ?_, ?_⟩
      · simp only [hst₁, hst₂]; exact halike
      · simp only [hst₁]; exact h.left.trans (Store.write_within hs)
      · simp only [hst₂]; exact h.right.trans (Store.write_within ht)

/-- Runs in step are in lockstep, in the one scope. -/
theorem InStep.lockstep : Lockstep s t (InStep s t scope) (Twin s t scope)
    (fun i j => i = scope ∧ j = scope) where
  faithful := Twin.faithful
  fresh := by
    rintro n params body calls calls' i j hcalls ⟨rfl, rfl⟩
    exact .lambda n params body hcalls
  lambda := by
    rintro _ _ ⟨n, params, body, hcalls⟩
    exact ⟨_, _, _, _, _, _, _, _, rfl, rfl, hcalls, rfl, rfl⟩
  counts h := ⟨h.functions, h.calls, h.params⟩
  inner := by
    intro s' t' h s'' t'' hs _ ht _ hcounts
    exact ⟨hcounts.functions, hcounts.calls, hcounts.params, hs ▸ ht ▸ h.sight, hs ▸ h.left,
      ht ▸ h.right⟩
  reads := by
    rintro s' t' h i j ⟨rfl, rfl⟩ ns
    exact Store.spaceData?_alike h.sight ns
  writes := by
    rintro s' t' h i j ⟨rfl, rfl⟩ ns keys v w hvw
    exact h.write ns keys hvw

/-- **Isolation.** In two sessions whose stores look alike from a scope, with no functions in the
data of the namespaces there, a script comes to the same, and leaves namespaces with the same data,
up to corresponding functions and what they hold on to. Whatever else the stores hold stays as it
is: in either of them only the data of namespaces on the chain of the scope changes. -/
theorem Script.run_isolated (script : Script) (scope : ScopeId) (s t : Session)
    (h : Store.SameSight (fun v w => v = w ∧ v.Plain) scope s.handle.store t.handle.store) :
    SameOutcome (Twins s t scope) ((script.run scope).runOn s).1 ((script.run scope).runOn t).1 ∧
      InStep s t scope ((script.run scope).runOn s).2 ((script.run scope).runOn t).2 :=
  script.run_lockstep InStep.lockstep ⟨rfl, rfl⟩ s t (.start h)

/-- A session in which scope 2 is a namespace in the content of a slot, beside another namespace.
What the slot was given and what is in the other namespace is `other`. -/
def Session.beside (other : Value) : Session where
  handle :=
    { Handle.new with
      store :=
        { frames :=
            [(3, ⟨"/1:b", some 0, .space "b", other, 0⟩),
              (2, ⟨"/#a/x/0:c", some 1, .space "c", .object [("k", .string "v")], 0⟩),
              (1, ⟨"/#a/x", some 0, .slot "a" "x", other, 0⟩), (0, .root)]
          addresses := [("", 0), ("/#a/x", 1), ("/#a/x/0:c", 2), ("/1:b", 3)]
          nextId := 4
          epoch := 0 } }
  calls := #[]
  nextFunction := 0
  counted := 0
  visits := []

/-- Nothing is learned of what is beside the scope and in the slot around it. -/
theorem Script.run_isolated_beside :
    Store.SameSight (fun v w => v = w ∧ v.Plain) 2 (Session.beside .null).handle.store
        (Session.beside (.string "secret")).handle.store ∧
      SameOutcome (Twins (Session.beside .null) (Session.beside (.string "secret")) 2)
        ((Script.run ⟨"b", .name "b", ["b"]⟩ 2).runOn (Session.beside .null)).1
        ((Script.run ⟨"b", .name "b", ["b"]⟩ 2).runOn (Session.beside (.string "secret"))).1 := by
  have hsight : Store.SameSight (fun v w => v = w ∧ v.Plain) 2 (Session.beside .null).handle.store
      (Session.beside (.string "secret")).handle.store :=
    ⟨rfl, rfl, .cons ⟨rfl, fun _ _ => ⟨rfl, trivial, trivial⟩⟩
      (.cons ⟨rfl, nofun⟩ (.cons ⟨rfl, nofun⟩ .nil))⟩
  exact ⟨hsight, (Script.run_isolated _ 2 _ _ hsight).1⟩

end Trellis