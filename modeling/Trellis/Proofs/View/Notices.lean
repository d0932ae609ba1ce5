import Trellis.Proofs.Build.Parts
import Trellis.Proofs.Build.Renderers
import Trellis.Proofs.Rendered.Listeners
import Trellis.Proofs.Script.Assignments
import Trellis.Proofs.View.Run

/-!
# What subscribers of a view are told

A host asks things of the handle, renders, fires listeners, evaluates scripts and calls functions. All
that any of these does to the scopes is operations of the handle; what is evaluated writes and does
nothing else; and an assignment below a namespace is one write, or none. So the revision counts the
writes that succeeded, wherever they came from, and subscribers were told of those and of nothing else.

* `AllowsHandling`, `Builder.Handling`: what reaches the scopes through the handle.
* `Session.Logs`: from one session to another there were operations of a kind.
* `Deed`, `View.after`, `View.notices_exact`: runs of a view.
-/

namespace Trellis

open Schema Session Act

/-! ### Through the handle -/

/-- A preorder of sessions that does not look at anything but their handles, and that holds between
two if something was asked of the handle in between. -/
class AllowsHandling (R : Session → Session → Prop) : Prop extends IsTrans Session R where
  inner : ∀ s t, s.handle = t.handle → R s t
  ask : ∀ s op handle, s.handle.attempt op = .ok handle → R s { s with handle := handle }

instance {R : Session → Session → Prop} [AllowsHandling R] : AllowsEvaluation R where
  inner s t hh _ := AllowsHandling.inner s t hh
  write s scope ns keys v handle hw :=
    AllowsHandling.ask s (.ask (.write scope ns keys v)) handle hw

/-- The renderer, with the components it may use, reaches the scopes through the slots it is given
and through what can be asked of the handle. -/
def Builder.Handling {N C : Type} (b : Builder N C) : Prop :=
  ∀ (R : Session → Session → Prop) [AllowsHandling R], b.Lets R

/-- So does one that changes no more than evaluating does. -/
theorem Builder.Honest.handling {N C : Type} {b : Builder N C} (hb : b.Honest) : b.Handling :=
  fun R _ => hb R

section Handling

variable {R : Session → Session → Prop} [AllowsHandling R]

/-- A change of the store that is asked of the handle, and is no write. -/
theorem Act.opening_handling {α : Type} {change : Store → Except Fault (α × Store)}
    (op : Store.Operation) (hop : (Handle.Operation.ask op).request? = none)
    (h : ∀ s, s.attempt op = (change s).map Prod.snd) : Keeps R (opening change) := by
  intro s
  rw [runOn_opening]
  cases hc : change s.handle.store with
  | error e => exact AllowsHandling.inner s s rfl
  | ok r =>
    refine AllowsHandling.ask s (.ask op) { s.handle with store := r.2 } ?_
    rw [Handle.attempt_ask hop, h, hc]
    rfl

variable {N C : Type} {b : Builder N C}

/-- **What building is made of** goes through the handle. -/
theorem Builder.Handling.parts (hb : b.Handling) : b.Parts (BothKeep R) where
  goes := Corresponds.bothKeep
  value site binding := and_self_iff.2 (Binding.resolve_keeps b.config site.scope binding)
  visit _ := and_self_iff.2 fun s => AllowsHandling.inner s _ rfl
  openSpace parent segment ns :=
    and_self_iff.2 (opening_handling (.openSpace parent segment ns) rfl fun _ => rfl)
  openSlot owner ns slot given :=
    and_self_iff.2 (opening_handling (.openSlot owner ns slot given) rfl fun _ => rfl)
  addData scope ns members :=
    and_self_iff.2 (opening_handling (.addData scope ns members) rfl fun s => by
      change s.addData scope ns members = ((s.addData scope ns members).map _).map _
      cases s.addData scope ns members <;> rfl)
  setLoop scope v :=
    and_self_iff.2 (opening_handling (.setLoop scope v) rfl fun s => by
      change s.setLoop scope v = ((s.setLoop scope v).map _).map _
      cases s.setLoop scope v <;> rfl)
  create c traits slots content hslots :=
    and_self_iff.2 (hb R c traits slots content fun slot hslot given => (hslots slot hslot given).1)

theorem Builder.Handling.root_keeps (hb : b.Handling) (n : Node) : Keeps R (b.root n) :=
  (hb.parts.root n).1

end Handling

/-! ### Operations in between -/

/-- From one session to another operations of a kind were asked of the handle, and nothing else was
done to it. -/
def Session.Logs (P : Handle.Operation → Prop) (s t : Session) : Prop :=
  ∃ ops, (∀ op ∈ ops, P op) ∧ t.handle = s.handle.run ops

/-- The operation is a write to a namespace. -/
def Handle.Operation.Writes (op : Handle.Operation) : Prop :=
  ∃ scope ns keys v, op = .ask (.write scope ns keys v)

section Logs

variable {P : Handle.Operation → Prop} {s t : Session}

theorem Session.Logs.inner (h : s.handle = t.handle) : Logs P s t :=
  ⟨[], nofun, h.symm⟩

theorem Session.Logs.ask {op : Handle.Operation} {handle : Handle} (hop : P op)
    (h : s.handle.attempt op = .ok handle) : Logs P s { s with handle := handle } :=
  ⟨[op], List.forall_mem_singleton.2 hop, (Handle.perform_of_ok h).symm⟩

instance : IsTrans Session (Logs P) where
  trans s t u := by
    rintro ⟨ops, hops, ht⟩ ⟨more, hmore, hu⟩
    refine ⟨ops ++ more, fun op hop => (List.mem_append.1 hop).elim (hops op) (hmore op), ?_⟩
    rw [hu, ht, Handle.run_append]

instance : AllowsHandling (Logs fun _ => True) where
  inner _ _ h := .inner h
  ask _ _ _ h := .ask trivial h

instance : AllowsEvaluation (Logs Handle.Operation.Writes) where
  inner _ _ h _ := .inner h
  write _ scope ns keys v _ h := .ask ⟨scope, ns, keys, v, rfl⟩ h

end Logs

/-! ### Runs of a view -/

/-- What a host does: it asks the handle for something, renders, fires listeners in order, evaluates
a script in a scope, or calls a function. -/
inductive Deed where
  | ask (op : Handle.Operation)
  | render
  | fire (listeners : List Listener) (args : List Value)
  | evaluate (script : Script) (scope : ScopeId)
  | call (f : Callable) (args : List Value)

/-- Which operations of the handle may stand for a deed: the one that was asked for; those of a pass,
once it has begun; and writes, where something is evaluated. -/
def Deed.Asks : Deed → List Handle.Operation → Prop
  | ask op, ops => ops = [op]
  | render, ops => ∃ inner, ops = .ask .beginPass :: inner
  | _, ops => ∀ op ∈ ops, op.Writes

namespace View

variable {N C : Type}

/-- The view after a deed. -/
def after (v : View N C) : Deed → View N C
  | .ask op => { v with session := { v.session with handle := v.session.handle.perform op } }
  | .render => v.render.2
  | .fire listeners args => (v.perform (Rendered.fireAll v.builder.config args .null listeners)).2
  | .evaluate script scope => (v.perform (script.run scope)).2
  | .call f args => (v.perform (f.call args)).2

/-- The view after deeds. -/
def afterAll (v : View N C) (deeds : List Deed) : View N C :=
  deeds.foldl after v

theorem after_builder (v : View N C) (d : Deed) : (v.after d).builder = v.builder := by
  cases d
  case render => exact v.render_builder
  all_goals rfl

/-- **A pass** goes through the handle, from its beginning on. -/
theorem pass_logs {b : Builder N C} (hb : b.Handling) (n : Node) (s : Session) :
    ∃ inner, ((pass n b).runOn s).2.handle = s.handle.run (.ask .beginPass :: inner) := by
  -- after the beginning there are the operations of building, and then the end if it went well
  have hroot : Keeps (Logs fun _ => True) (b.root n) := hb.root_keeps n
  obtain ⟨ops, -, hops⟩ := hroot s.begun
  rw [pass_eq]
  rcases hrun : (b.root n).runOn s.begun with ⟨_ | node, t⟩
  · rw [hrun] at hops
    exact ⟨ops, hops⟩
  · rw [hrun] at hops
    refine ⟨ops ++ [.ask .finishPass], ?_⟩
    have hend : (t.withStore t.store.finishPass.2).handle = t.handle.perform (.ask .finishPass) := rfl
    simp only
    rw [hend, hops]
    exact (Handle.run_append _ (.ask .beginPass :: ops) [.ask .finishPass]).symm

/-- **A deed** is operations of the handle. -/
theorem after_asks (v : View N C) (hb : v.builder.Handling) (d : Deed) :
    ∃ ops, d.Asks ops ∧ (v.after d).session.handle = v.session.handle.run ops := by
  cases d with
  | ask op => exact ⟨[op], rfl, rfl⟩
  | render =>
    obtain ⟨inner, hinner⟩ := pass_logs hb v.schema v.session
    refine ⟨_, ⟨inner, rfl⟩, ?_⟩
    rw [← hinner]
    exact congrArg Session.handle v.render_session
  | fire listeners args =>
    exact Rendered.fireAll_keeps (R := Logs Handle.Operation.Writes) v.builder.config args listeners
      .null v.session
  | evaluate script scope =>
    exact script.run_keeps (R := Logs Handle.Operation.Writes) scope v.session
  | call f args => exact f.call_keeps (R := Logs Handle.Operation.Writes) args v.session

/-- So are deeds one after the other. -/
theorem afterAll_asks (deeds : List Deed) : ∀ v : View N C, v.builder.Handling →
    ∃ asked, List.Forall₂ Deed.Asks deeds asked ∧
      (v.afterAll deeds).session.handle = v.session.handle.run asked.flatten := by
  induction deeds with
  | nil => exact fun v _ => ⟨[], .nil, rfl⟩
  | cons d deeds ih =>
    intro v hb
    obtain ⟨ops, hops, hd⟩ := v.after_asks hb d
    obtain ⟨asked, hasked, hrest⟩ := ih (v.after d) (by rw [v.after_builder]; exact hb)
    refine ⟨ops :: asked, .cons hops hasked, ?_⟩
    change ((v.after d).afterAll deeds).session.handle = _
    rw [hrest, hd, List.flatten_cons, Handle.run_append]

/-- **Notices are exact.** A view is mounted on a handle of which anything was asked before, and a
host does whatever it likes to it. Then operations were asked of the handle, for each deed those that
may stand for it, and they account for all there is: the revision is the number of writes among them
that succeeded; what subscribers were told is those writes in order, with consecutive numbers, each
told once to everyone who was there, in the order of subscription; and in the store that they saw
then what was written is read.

An operation that is no write, or a write that fails, counts for nothing and is told to nobody. An
assignment below a namespace is one write of its value or fails; it is none if its left side settles
it, if it is to the namespace itself, or if it is to a parameter. -/
theorem notices_exact (v : View N C) (hb : v.builder.Handling) (before : List Handle.Operation)
    (hv : v.session.handle = Handle.new.run before) (deeds : List Deed) :
    (∃ asked, List.Forall₂ Deed.Asks deeds asked ∧
      (v.afterAll deeds).session.handle = Handle.new.run (before ++ asked.flatten) ∧
      (v.afterAll deeds).session.handle.revision =
        (Handle.new.written (before ++ asked.flatten)).length ∧
      (v.afterAll deeds).session.handle.deliveries =
        Handle.told 0 (Handle.new.written (before ++ asked.flatten)) ∧
      ∀ w ∈ Handle.new.written (before ++ asked.flatten),
        w.store.get w.scope ⟨w.ns, none, w.keys⟩ = .ok w.value) ∧
    (∀ (h : Handle) (op : Handle.Operation),
      (∀ r, op.request? = some r → ∃ e, h.store.write r.scope r.ns r.keys r.value = .error e) →
        (h.perform op).revision = h.revision ∧ (h.perform op).deliveries = h.deliveries) ∧
    (∀ (p : Place) (op : AssignOp) (root : String) (keys : List String) (right : Act Value)
      (s : Session), s.held? root p.calls = none → keys ≠ [] →
        AssignsOnce p root keys ((assignTo p op root keys right).runOn s)
          ((op.combine (p.member root keys) right).runOn s)) ∧
    (∀ (p : Place) (l : LogicalOp) (root : String) (keys : List String) (right : Act Value)
      (s : Session) (x : Value), s.held? root p.calls = none → keys ≠ [] →
        ((p.member root keys).runOn s).1 = .ok x → l.keeps x = true →
          (assignTo p (.logical l) root keys right).runOn s = (.ok x, s)) ∧
    (∀ (p : Place) (op : AssignOp) (root : String) (right : Act Value) (s : Session),
      s.held? root p.calls = none → ∃ e, (assignTo p op root [] right).runOn s = (.error e, s)) ∧
    (∀ (p : Place) (op : AssignOp) (root : String) (keys : List String) (right : Act Value)
      (s : Session) (id : LocalId) (x : Value), s.held? root p.calls = some (id, x) →
        ((assignTo p op root keys right).runOn s).2.handle =
          ((op.combine (parameterMember id root keys) right).runOn s).2.handle) := by
  obtain ⟨asked, hasked, hrun⟩ := afterAll_asks deeds v hb
  rw [hv, ← Handle.run_append] at hrun
  obtain ⟨hrevision, hdeliveries⟩ := Handle.run_exact .new (before ++ asked.flatten)
  refine ⟨⟨asked, hasked, hrun, ?_, ?_, fun w hw => Handle.read_written hw⟩,
    fun h op hop => Handle.perform_of_not_writeOf? (Handle.writeOf?_eq_none hop),
    fun p op root keys right s hroot hkeys => assignTo_once hroot hkeys,
    fun p l root keys right s x hroot hkeys hx hkeep => assignTo_settled hroot hkeys hx hkeep,
    fun p op root right s hroot => assignTo_nil hroot,
    fun p op root keys right s id x hroot => assignTo_held hroot⟩
  · rw [hrun, hrevision]
    exact Nat.zero_add _
  · rw [hrun, hdeliveries]
    rfl

/-- A lamp that takes down when it is shown. -/
def lampNode : Node :=
  .mk
    { Directives.plain (.named "b") with
      ns := some "lamp"
      data := some [("on", .bool false)]
      boundText := some (.expression "|> lamp.shown = true") }
    none []

/-- It is shown and switched on; a lamp that is not there is not switched on. -/
def lampDeeds : List Deed :=
  [.render, .fire [⟨"click", .binding (.expression "|> lamp.on = true"), 1⟩] [],
    .ask (.writePath 1 ⟨"lamp", none, ["other", "on"]⟩ (.bool true))]

/-- Of the lamp two writes are counted: one from the middle of the render, one from the click. -/
theorem notices_exact_lamp :
    let mounted := View.mount lampNode (Builder.trees Registry.empty ⟨true⟩) 0
    mounted.builder.Handling ∧ mounted.session.handle = Handle.new.run [.subscribe] ∧
      (mounted.afterAll lampDeeds).session.handle.revision = 2 ∧
      ∃ asked, List.Forall₂ Deed.Asks lampDeeds asked ∧
        (Handle.new.written ([.subscribe] ++ asked.flatten)).length = 2 := by
  intro mounted
  have hempty : ∀ name make,
      (Registry.empty : Registry Rendered.Component) name = some make → make.Honest :=
    fun _ _ h => by cases h
  have hb : mounted.builder.Handling := (Rendered.honest hempty ⟨true⟩).handling
  have hcount : (mounted.afterAll lampDeeds).session.handle.revision = 2 := by decide +kernel
  obtain ⟨⟨asked, hasked, -, hrevision, -⟩, -⟩ :=
    notices_exact mounted hb [.subscribe] rfl lampDeeds
  exact ⟨hb, rfl, hcount, asked, hasked, hrevision.symm.trans hcount⟩

end View

end Trellis
