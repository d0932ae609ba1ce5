import Trellis.Proofs.Script.Effects
import Trellis.Resolved

/-!
# Reading directives twice

What directives come to is the same program whatever bindings are read in. So two ways of reading
that correspond binding by binding correspond for everything a node says.

* `Corresponds`: a relation between computations that goes through sequences.
* `Schema.Directives.traits_corresponds`: what a node carries; the others likewise.
* `Corresponds.bothKeep`, `Corresponds.reads`, `Corresponds.agree`: such relations.
-/

namespace Trellis

/-- A relation between computations of two kinds that goes through sequences. -/
structure Corresponds {m n : Type → Type} [Monad m] [MonadExcept Fault m] [Monad n]
    [MonadExcept Fault n] (rel : ∀ {α : Type}, m α → n α → Prop) : Prop where
  pure : ∀ {α : Type} (a : α), rel (pure a : m α) (pure a : n α)
  throw : ∀ {α : Type} (e : Fault), rel (throw e : m α) (throw e : n α)
  bind : ∀ {α β : Type} {x : m α} {y : n α} {f : α → m β} {g : α → n β}, rel x y →
    (∀ a, rel (f a) (g a)) → rel (x >>= f) (y >>= g)

/-- Two acts that keep a relation of sessions. -/
def Act.BothKeep (R : Session → Session → Prop) {α : Type} (x y : Act α) : Prop :=
  Keeps R x ∧ Keeps R y

/-- An act that leaves a session as it is, with a given outcome. -/
def Act.Reads (s : Session) {α : Type} (x : Act α) (y : Except Fault α) : Prop :=
  x.runOn s = (y, s)

theorem Corresponds.bothKeep {R : Session → Session → Prop} [Std.Refl R] [IsTrans Session R] :
    Corresponds (m := Act) (n := Act) (Act.BothKeep R) where
  pure a := ⟨Act.Keeps.pure a, Act.Keeps.pure a⟩
  throw e := ⟨Act.Keeps.throw e, Act.Keeps.throw e⟩
  bind hx hf := ⟨hx.1.bind fun a => (hf a).1, hx.2.bind fun a => (hf a).2⟩

theorem Corresponds.reads (s : Session) :
    Corresponds (m := Act) (n := Except Fault) (Act.Reads s) where
  pure _ := rfl
  throw _ := rfl
  bind {α β x y f g} hx hf := by
    unfold Act.Reads at hx ⊢
    rw [Act.runOn_bind, hx]
    cases y with
    | error e => rfl
    | ok a => exact hf a

theorem Corresponds.agree {I : Session → Session → Prop} :
    Corresponds (m := Act) (n := Act) (Act.Agree I Eq) where
  pure _ := Act.Agree.pure rfl
  throw e := Act.Agree.throw e
  bind hx hf := hx.bind fun a _ hab => hab ▸ hf a

namespace Schema

variable {m n : Type → Type} [Monad m] [MonadExcept Fault m] [Monad n] [MonadExcept Fault n]
  {rel : ∀ {α : Type}, m α → n α → Prop} (h : Corresponds @rel) {value : Binding → m Value}
  {value' : Binding → n Value} (hv : ∀ b, rel (value b) (value' b))

include h hv

theorem assignAll_corresponds : ∀ (bindings : Members Binding) (target : Members Value),
    rel (assignAll value target bindings) (assignAll value' target bindings)
  | [], target => h.pure target
  | (_, b) :: rest, _ => h.bind (hv b) fun _ => assignAll_corresponds rest _

theorem Entries.resolve_corresponds (field : String) (e : Entries) :
    rel (e.resolve value field) (e.resolve value' field) := by
  unfold Entries.resolve
  refine h.bind (assignAll_corresponds h hv e.named []) fun members => ?_
  cases e.spread with
  | none => exact h.pure _
  | some b =>
    refine h.bind (hv b) fun v => ?_
    cases v
    case object more => exact h.pure _
    case null => exact h.pure _
    all_goals exact h.throw _

theorem Toggle.shown_corresponds (t : Toggle) : rel (t.shown value) (t.shown value') := by
  unfold Toggle.shown
  cases t.literal.getD true with
  | false => exact h.pure _
  | true =>
    cases t.bound with
    | none => exact h.pure _
    | some b => exact h.bind (hv b) fun _ => h.pure _

namespace Directives

theorem classList_corresponds (d : Directives) : rel (d.classList value) (d.classList value') := by
  unfold classList
  cases d.boundClasses with
  | none => exact h.pure _
  | some b => exact h.bind (hv b) fun _ => h.pure _

theorem keyValue_corresponds (d : Directives) : rel (d.keyValue value) (d.keyValue value') := by
  unfold keyValue
  cases d.key with
  | none => exact h.pure _
  | some b => exact h.bind (hv b) fun _ => h.pure _

/-- **What a node carries** corresponds if its bindings do. -/
theorem traits_corresponds (scope : ScopeId) (d : Directives) :
    rel (d.traits value scope) (d.traits value' scope) := by
  unfold traits
  refine h.bind (d.classList_corresponds h hv) fun _ => ?_
  refine h.bind (d.style.resolve_corresponds h hv "style") fun _ => ?_
  refine h.bind (d.attrs.resolve_corresponds h hv "attrs") fun _ => ?_
  refine h.bind (d.props.resolve_corresponds h hv "props") fun _ => ?_
  refine h.bind (d.domProps.resolve_corresponds h hv "domProps") fun _ => ?_
  refine h.bind (d.visible.shown_corresponds h hv) fun _ => ?_
  exact h.bind (d.keyValue_corresponds h hv) fun _ => h.pure _

theorem ownContent_corresponds {N : Type} (d : Directives) :
    rel (d.ownContent value : m (Option (Content N))) (d.ownContent value') := by
  unfold ownContent
  cases d.boundText with
  | some b => exact h.bind (hv b) fun _ => h.pure _
  | none =>
    cases d.html with
    | some b => exact h.bind (hv b) fun _ => h.pure _
    | none => cases d.text <;> exact h.pure _

theorem content_corresponds {N : Type} (d : Directives) {x : m (Content N)} {y : n (Content N)}
    (hxy : rel x y) : rel (d.content value x) (d.content value' y) := by
  unfold content
  refine h.bind (d.ownContent_corresponds h hv) fun own => ?_
  cases own with
  | some content => exact h.pure _
  | none => exact hxy

theorem present_corresponds (d : Directives) : rel (d.present value) (d.present value') := by
  unfold present
  cases d.condition.bound with
  | none => exact h.pure _
  | some b => exact h.bind (hv b) fun _ => h.pure _

end Directives

end Schema

end Trellis
