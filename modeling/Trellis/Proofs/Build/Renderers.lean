import Trellis.Proofs.Build.Places
import Trellis.Rendered.Samples
import Trellis.Record

/-!
# Confined renderers

The renderer of plain trees and the one that writes down requests reach the scopes through slots
alone, the former if the components it may use do. The sample components do.

* `Rendered.lets`, `Record.lets`: the renderers, which are confined, and honest.
* `Rendered.samples_lets`: the sample components.
-/

namespace Trellis

open Session Act

/-- Making a tree keeps what the slots a component is given keep. -/
def Rendered.Component.Lets (make : Rendered.Component) (R : Session → Session → Prop) : Prop :=
  ∀ name p content, (∀ slot ∈ p.slots, ∀ given, Keeps R (slot.2 given)) →
    Keeps R (make name p content)

/-- A component that reaches the scopes through the slots it is given, and otherwise changes no more
than data. -/
def Rendered.Component.Confined (make : Rendered.Component) : Prop :=
  ∀ (R : Session → Session → Prop), (∀ s t, SameOutline s t → R s t) →
    (∀ s t u, R s t → R t u → R s u) → ∀ name p content,
      (∀ slot ∈ p.slots, ∀ given, Keeps R (slot.2 given)) → Keeps R (make name p content)

/-- A component that reaches the scopes through the slots it is given, and otherwise changes no more
than evaluating does. -/
def Rendered.Component.Honest (make : Rendered.Component) : Prop :=
  ∀ (R : Session → Session → Prop) [AllowsEvaluation R], make.Lets R

/-- A component that reaches the scopes through the slots it is given, and does nothing else. -/
def Rendered.Component.Secluded (make : Rendered.Component) : Prop :=
  ∀ (R : Session → Session → Prop) [Std.Refl R] [IsTrans Session R], make.Lets R

namespace Rendered

section Slots

variable {R : Session → Session → Prop} [Std.Refl R] [IsTrans Session R]

theorem fillSlots_keeps (given : String → Value) : ∀ slots : Slots Rendered,
    (∀ slot ∈ slots, ∀ given, Keeps R (slot.2 given)) → Keeps R (fillSlots given slots)
  | [], _ => Keeps.pure _
  | (slot, build) :: rest, h => by
    rw [fillSlots]
    refine Keeps.bind (h _ List.mem_cons_self (given slot)) fun _ => ?_
    exact Keeps.bind (fillSlots_keeps given rest fun slot hs => h slot (List.mem_cons_of_mem _ hs))
      fun _ => Keeps.pure _

theorem askDefault_keeps {slots : Slots Rendered}
    (h : ∀ slot ∈ slots, ∀ given, Keeps R (slot.2 given)) (asked : List Value) :
    Keeps R (askDefault slots asked) := by
  induction asked with
  | nil => exact Keeps.pure _
  | cons given rest ih =>
    rw [askDefault]
    cases hs : Members.get? slots "default" with
    | none => exact Keeps.pure _
    | some build =>
      refine Keeps.bind (h ("default", build) (Members.mem_of_get? hs) given) fun _ => ?_
      exact Keeps.bind ih fun _ => Keeps.pure _

end Slots

/-- **The renderer of plain trees** lets pass what the components it may use do. -/
theorem lets {R : Session → Session → Prop} [Std.Refl R] [IsTrans Session R]
    {known : Registry Component} (h : ∀ name make, known name = some make → make.Lets R)
    (config : Config) : Builder.Lets ⟨renderer, known, config⟩ R := by
  intro c traits slots content hslots
  change Keeps R (create (known.resolve c) ⟨traits, slots⟩ content)
  cases c with
  | inline definition =>
    exact Keeps.bind (fillSlots_keeps _ slots hslots) fun _ => Keeps.pure _
  | named name =>
    unfold Registry.resolve
    simp only
    cases hk : known name with
    | none => exact Keeps.pure _
    | some make => exact Keeps.bind (h name make hk _ _ _ hslots) fun _ => Keeps.pure _

theorem confined {known : Registry Component} (h : ∀ name make, known name = some make →
    make.Confined) (config : Config) : Builder.Confined ⟨renderer, known, config⟩ := by
  intro R hR htrans
  have : Std.Refl R := ⟨fun s => hR s s (.refl s)⟩
  have : IsTrans Session R := ⟨htrans⟩
  exact lets (fun name make hk => h name make hk R hR htrans) config

theorem honest {known : Registry Component} (h : ∀ name make, known name = some make →
    make.Honest) (config : Config) : Builder.Honest ⟨renderer, known, config⟩ :=
  fun R _ => lets (fun name make hk => h name make hk R) config

/-- **The sample components** let pass whatever is reflexive and transitive. -/
theorem samples_lets {R : Session → Session → Prop} [Std.Refl R] [IsTrans Session R] (name : String)
    (make : Component) (h : samples name = some make) : make.Lets R := by
  intro name p content hslots
  have hmem := Members.mem_of_get? h
  simp only [List.mem_cons, Prod.mk.injEq, List.not_mem_nil, or_false] at hmem
  rcases hmem with ⟨-, rfl⟩ | ⟨-, rfl⟩ | ⟨-, rfl⟩ | ⟨-, rfl⟩ | ⟨-, rfl⟩
  · exact Keeps.pure _
  · unfold layout
    split <;> exact Keeps.pure _
  · unfold emitter
    simp only
    split <;> exact Keeps.pure _
  · exact Keeps.bind (askDefault_keeps hslots _) fun _ => Keeps.pure _
  · exact Keeps.bind (askDefault_keeps hslots _) fun _ => Keeps.pure _

theorem samples_confined (name : String) (make : Component) (h : samples name = some make) :
    make.Confined := by
  intro R hR htrans
  have : Std.Refl R := ⟨fun s => hR s s (.refl s)⟩
  have : IsTrans Session R := ⟨htrans⟩
  exact samples_lets name make h

theorem samples_honest (name : String) (make : Component) (h : samples name = some make) :
    make.Honest :=
  fun _ _ => samples_lets name make h

end Rendered

namespace Record

section Slots

variable {R : Session → Session → Prop} [Std.Refl R] [IsTrans Session R]

theorem askSlot_keeps {build : Value → Act (Option Record)} (h : ∀ given, Keeps R (build given))
    (asked : List Value) : Keeps R (askSlot build asked) := by
  induction asked with
  | nil => exact Keeps.pure _
  | cons given rest ih => exact Keeps.bind (h given) fun _ => Keeps.bind ih fun _ => Keeps.pure _

theorem askSlots_keeps (t : Traits) : ∀ slots : Slots Record,
    (∀ slot ∈ slots, ∀ given, Keeps R (slot.2 given)) → Keeps R (askSlots t slots)
  | [], _ => Keeps.pure _
  | (slot, build) :: rest, h => by
    rw [askSlots]
    refine Keeps.bind (Keeps.ofExcept _) fun asked => ?_
    refine Keeps.bind (askSlot_keeps (h _ List.mem_cons_self) asked) fun _ => ?_
    exact Keeps.bind (askSlots_keeps t rest fun slot hs => h slot (List.mem_cons_of_mem _ hs))
      fun _ => Keeps.pure _

end Slots

/-- **The renderer that writes down requests** lets pass whatever is reflexive and transitive. -/
theorem lets {R : Session → Session → Prop} [Std.Refl R] [IsTrans Session R]
    (known : Registry String) (config : Config) : Builder.Lets ⟨renderer, known, config⟩ R :=
  fun _ traits slots _ hslots =>
    Keeps.bind (askSlots_keeps traits slots hslots) fun _ => Keeps.pure _

theorem confined (known : Registry String) (config : Config) :
    Builder.Confined ⟨renderer, known, config⟩ := by
  intro R hR htrans
  have : Std.Refl R := ⟨fun s => hR s s (.refl s)⟩
  have : IsTrans Session R := ⟨htrans⟩
  exact lets known config

theorem honest (known : Registry String) (config : Config) :
    Builder.Honest ⟨renderer, known, config⟩ :=
  fun _ _ => lets known config

end Record

end Trellis
