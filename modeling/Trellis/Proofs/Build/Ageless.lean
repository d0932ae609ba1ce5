import Trellis.Proofs.Build.Parts
import Trellis.Proofs.Rendered.Listeners
import Trellis.Proofs.Scope.Ageless
import Trellis.Proofs.Scope.Operations

/-!
# Building, whichever pass touched what

With expressions switched off and no components, building comes to the same in sessions whose scopes
differ only in the passes that touched them, and enters the same frames in both; what is no part of
the scopes does not matter either. All it does to a store is to open frames and to set their data.

* `Session.Parallel`: two sessions of which this holds.
* `Builder.parallel_parts`: what building is made of keeps it.
* `Session.Later`, `Builder.later_parts`: it leaves a later store.
-/

namespace Trellis

open Schema Act

/-! ### Two sessions -/

/-- Since `base` and `base'` the same frames were entered, and the scopes are the same, whichever
pass touched what. -/
structure Session.Parallel (base base' s t : Session) : Prop where
  scopes : s.store.ageless = t.store.ageless
  visits : ∃ new, s.visits = new ++ base.visits ∧ t.visits = new ++ base'.visits

variable {base base' s t : Session} {α : Type}

theorem Session.Parallel.start (h : s.store.ageless = t.store.ageless) : Parallel s t s t :=
  ⟨h, [], rfl, rfl⟩

/-- A change of the store that is no matter of passes. -/
theorem Session.Parallel.opening {change : Store → Except Fault (α × Store)}
    (h : Store.Timeless change) :
    Agree (Parallel base base') Eq (Act.opening change) (Act.opening change) := by
  intro s t hst
  have heq : Store.agelessly (change s.handle.store) = Store.agelessly (change t.handle.store) :=
    h.eq hst.scopes
  rw [runOn_opening, runOn_opening]
  revert heq
  rcases change s.handle.store with e | r <;> rcases change t.handle.store with e' | r' <;>
    intro heq
  · cases heq
    exact ⟨rfl, hst⟩
  · cases heq
  · cases heq
  · obtain ⟨ha, hu⟩ := Prod.mk.inj (Except.ok.inj heq)
    exact ⟨ha, hu, hst.visits⟩

/-- Asking slots that come to the same. -/
theorem Rendered.fillSlots_corresponds {rel : ∀ {α : Type}, Act α → Act α → Prop}
    (hgoes : Corresponds (m := Act) (n := Act) @rel) (given : String → Value) :
    ∀ slots : Slots Rendered, (∀ slot ∈ slots, ∀ given, rel (slot.2 given) (slot.2 given)) →
      rel (fillSlots given slots) (fillSlots given slots)
  | [], _ => hgoes.pure _
  | (slot, build) :: rest, h => by
    rw [fillSlots]
    refine hgoes.bind (h _ List.mem_cons_self _) fun node => ?_
    exact hgoes.bind (fillSlots_corresponds hgoes given rest fun s hs =>
      h s (List.mem_cons_of_mem _ hs)) fun _ => hgoes.pure _

/-- Making a tree without components asks slots, if anything. -/
theorem Rendered.create_corresponds {rel : ∀ {α : Type}, Act α → Act α → Prop}
    (hgoes : Corresponds (m := Act) (n := Act) @rel) (c : Schema.Component) (traits : Traits)
    (slots : Slots Rendered) (content : Content Rendered)
    (h : ∀ slot ∈ slots, ∀ given, rel (slot.2 given) (slot.2 given)) :
    rel (create (Registry.empty.resolve c) ⟨traits, slots⟩ content)
      (create (Registry.empty.resolve c) ⟨traits, slots⟩ content) := by
  cases c with
  | named tag => exact hgoes.pure _
  | inline definition =>
    exact hgoes.bind (fillSlots_corresponds hgoes _ slots h) fun _ => hgoes.pure _

section Parts

variable {config : Config} (hoff : config.expressions = false)

include hoff

/-- **What building is made of** comes to the same in scopes that differ in passes alone. -/
theorem Builder.parallel_parts :
    (Builder.trees Registry.empty config).Parts (Agree (Session.Parallel base base') Eq) where
  goes := Corresponds.agree
  value site binding := by
    change Agree _ Eq (binding.resolve config site.scope) (binding.resolve config site.scope)
    cases binding with
    | literal v => exact Agree.pure rfl
    | path p =>
      intro s t hst
      rw [Binding.resolve, runOn_scopes, runOn_scopes]
      refine ⟨?_, hst⟩
      change SameOutcome Eq (s.store.get site.scope p) (t.store.get site.scope p)
      rw [← Store.get_ageless, hst.scopes, Store.get_ageless]
      exact .refl (fun _ => rfl) _
    | expression raw =>
      unfold Binding.resolve
      rw [hoff]
      exact Agree.pure rfl
  visit v := by
    rintro s t ⟨hscopes, new, hs, ht⟩
    exact ⟨rfl, hscopes, v :: new, congrArg (v :: ·) hs, congrArg (v :: ·) ht⟩
  openSpace parent segment ns :=
    Session.Parallel.opening (Store.timeless_openSpace parent segment ns)
  openSlot owner ns slot given :=
    Session.Parallel.opening (Store.timeless_openSlot owner ns slot given)
  addData scope ns members := Session.Parallel.opening (Store.timeless_addData scope ns members)
  setLoop scope v := Session.Parallel.opening (Store.timeless_setLoop scope v)
  create := Rendered.create_corresponds Corresponds.agree

end Parts

/-! ### Later sessions -/

/-- A session with a later store. -/
def Session.Later (s t : Session) : Prop :=
  s.store.Sound → s.store.Later t.store

theorem Session.Later.of_store (h : t.store = s.store) : s.Later t :=
  fun hs => h.symm ▸ Store.Later.refl hs

/-- An operation on the store. -/
theorem Session.Later.of_attempt (op : Store.Operation) (h : s.store.attempt op = .ok t.store) :
    s.Later t :=
  fun hs => hs.later op h

/-- Evaluating writes, if anything. -/
instance : AllowsEvaluation Session.Later where
  trans _ _ _ h h' hs := (h hs).trans (h' (h hs).sound)
  inner s t hh _ := .of_store (by rw [Session.store, ← hh])
  write s scope ns keys v handle hw := by
    cases hs : s.handle.store.write scope ns keys v with
    | error e =>
      rw [Handle.write_error hs] at hw
      cases hw
    | ok r =>
      obtain ⟨_, hw', hstore, -⟩ := Handle.write_ok hs
      rw [hw] at hw'
      cases hw'
      refine .of_attempt (.write scope ns keys v) ?_
      change (s.handle.store.write scope ns keys v).map Prod.snd = .ok handle.store
      rw [hs, hstore]
      rfl

/-- A change of the store that is an operation. -/
theorem Session.Later.opening {change : Store → Except Fault (α × Store)} (o : Store.Operation)
    (h : ∀ s, s.attempt o = (change s).map Prod.snd) :
    Keeps Session.Later (Act.opening change) := by
  intro s
  rw [runOn_opening]
  cases hc : change s.handle.store with
  | error e => exact .of_store rfl
  | ok r =>
    refine .of_attempt o ?_
    rw [h, Session.store, hc]
    rfl

/-- **What building is made of** leaves later stores. -/
theorem Builder.later_parts (config : Config) :
    (Builder.trees Registry.empty config).Parts (BothKeep Session.Later) where
  goes := Corresponds.bothKeep
  value site binding := and_self_iff.2 (Binding.resolve_keeps config site.scope binding)
  visit _ := and_self_iff.2 fun _ => .of_store rfl
  openSpace parent segment ns :=
    and_self_iff.2 (Session.Later.opening (.openSpace parent segment ns) fun _ => rfl)
  openSlot owner ns slot given :=
    and_self_iff.2 (Session.Later.opening (.openSlot owner ns slot given) fun _ => rfl)
  addData scope ns members :=
    and_self_iff.2 (Session.Later.opening (.addData scope ns members) fun s => by
      change s.addData scope ns members = ((s.addData scope ns members).map _).map _
      cases s.addData scope ns members <;> rfl)
  setLoop scope v :=
    and_self_iff.2 (Session.Later.opening (.setLoop scope v) fun s => by
      change s.setLoop scope v = ((s.setLoop scope v).map _).map _
      cases s.setLoop scope v <;> rfl)
  create := Rendered.create_corresponds Corresponds.bothKeep

end Trellis
