import Trellis.Proofs.Build.Verbatim
import Trellis.Proofs.Scope.Released
import Trellis.Proofs.Script.Isolation

/-!
# Evaluation in a released scope

In a scope that is released no namespace is found, so a script that runs there, with no functions at
hand but those it makes, comes to the same whatever the stores hold, and changes nothing in them. A
listener that was kept from a tree whose frames are gone does no more than that, whatever frame is
at the address of its scope by now.

* `Severed`: what two runs keep; `Severed.lockstep`.
* `Script.run_severed`, `Listener.fire_severed`, `Expr.eval_severed`, `Callable.call_severed`: what
  is evaluated in a released scope.
* `swept_for_good`: a scope that was swept, after every run of operations since.
-/

namespace Trellis

open Value Act

variable {s t : Session} {id : ScopeId}

/-! ### Runs in lockstep, whatever is known of their calls -/

namespace Lockstep

variable {I : Session → Session → Prop} {F : Callable → Callable → Prop}
  {S : ScopeId → ScopeId → Prop}

/-- Runs that agree knowing nothing of any call. -/
theorem agree {α β : Type} {A : α → β → Prop} {x : Act α} {y : Act β}
    (h : AgreeFrom (fun w s' t' => I s' t' ∧ Holding.TrueOf w s') (fun _ => A) (fun _ _ => False)
      x y) : Agree I A x y := by
  intro s' t' hI
  obtain ⟨_, _, ho, hI, _⟩ := h s' t' ⟨hI, nofun⟩
  exact ⟨ho, hI⟩

/-- **Expressions** in places alike. -/
theorem eval (h : Lockstep s t I F S) (e : Expr) {p q : Place} (hp : p.Paired q (SameCall s t) S) :
    Agree I (Alike F) (e.eval Callable.call p) (e.eval Callable.call q) :=
  agree (e.eval_lockstep h.within (Callable.call_lockstep h.within) hp Holding.covers_nil
    (confine_true _))

/-- **Calls** of related functions. -/
theorem call (h : Lockstep s t I F S) {f g : Callable} (hfg : F f g) {args args' : List Value}
    (hargs : AlikeItems F args args') : Agree I (Alike F) (f.call args) (g.call args') :=
  agree (Callable.call_lockstep h.within _ f g args args' hfg hargs)

end Lockstep

/-! ### Nothing to read, nothing to write -/

/-- What two runs begun in `s` and `t` have come to in a scope that is gone: they have made as many
functions and entered as many calls, and left the scopes alone. -/
structure Severed (s t : Session) (id : ScopeId) (s' t' : Session) : Prop
    extends SameCalls s t (Twin s t id) s' t' where
  left : s'.handle = s.handle
  right : t'.handle = t.handle

theorem Severed.start : Severed s t id s t where
  toSameCalls := .start
  left := rfl
  right := rfl

/-- **Runs in a scope that is gone** go in lockstep: wherever they look at the scopes they fail. -/
theorem Severed.lockstep (hs : s.handle.store.Gone id) (ht : t.handle.store.Gone id) :
    Lockstep s t (Severed s t id) (Twin s t id) (fun i j => i = id ∧ j = id) where
  faithful := Twin.faithful
  fresh := by
    rintro n params body calls calls' i j hcalls ⟨rfl, rfl⟩
    exact .lambda n params body hcalls
  lambda := by
    rintro _ _ ⟨n, params, body, hcalls⟩
    exact ⟨_, _, _, _, _, _, _, _, rfl, rfl, hcalls, rfl, rfl⟩
  counts h := h.toSameCalls
  inner h _ _ hs' _ ht' _ hcounts := ⟨hcounts, hs'.trans h.left, ht'.trans h.right⟩
  reads := by
    rintro s' t' h i j ⟨rfl, rfl⟩ ns
    change SameOutcome _ (s'.handle.store.spaceData? _ ns) (t'.handle.store.spaceData? _ ns)
    rw [h.left, h.right, hs.spaceData?, ht.spaceData?]
    rfl
  writes := by
    rintro s' t' h i j ⟨rfl, rfl⟩ ns keys v w -
    rw [h.left, h.right, Handle.write_gone hs, Handle.write_gone ht]
    rfl

/-! ### Scripts and listeners -/

/-- An act comes to the same in two sessions, up to the functions it makes, and leaves the scopes of
both as they were, with all that subscribers were told. -/
def Unseeing (s t : Session) (id : ScopeId) (act : Act Value) : Prop :=
  SameOutcome (Twins s t id) (act.runOn s).1 (act.runOn t).1 ∧
    (act.runOn s).2.handle = s.handle ∧ (act.runOn t).2.handle = t.handle

theorem Unseeing.of_agree {act : Act Value}
    (h : Agree (Severed s t id) (Twins s t id) act act) : Unseeing s t id act := by
  obtain ⟨ho, hsevered⟩ := h s t .start
  exact ⟨ho, hsevered.left, hsevered.right⟩

theorem Script.run_severed (hs : s.handle.store.Gone id) (ht : t.handle.store.Gone id)
    (script : Script) : Agree (Severed s t id) (Twins s t id) (script.run id) (script.run id) :=
  script.run_lockstep (Severed.lockstep hs ht) ⟨rfl, rfl⟩

/-- **A binding** without functions: a path leads nowhere, and an expression is evaluated there. -/
theorem Binding.resolve_severed (hs : s.handle.store.Gone id) (ht : t.handle.store.Gone id)
    (config : Config) {b : Binding} (hb : b.Plain) :
    Agree (Severed s t id) (Twins s t id) (b.resolve config id) (b.resolve config id) := by
  cases b with
  | literal v => exact Agree.pure (Alike.refl hb)
  | path p =>
    intro s' t' h
    unfold resolve
    rw [runOn_scopes, runOn_scopes]
    refine ⟨?_, h⟩
    rw [h.left, h.right, hs.get, ht.get]
    rfl
  | expression raw =>
    simp only [resolve]
    split
    · generalize Script.compile (expressionSource raw) = compiled
      refine (Agree.ofExcept (SameOutcome.refl (fun _ => rfl) compiled)).bind
        fun script script' heq => ?_
      subst heq
      exact script.run_severed hs ht
    · exact Agree.pure (Alike.string raw)

/-- **A listener** whose scope is gone calls at most a function that it has just made. -/
theorem Listener.fire_severed {l : Listener} (hs : s.handle.store.Gone l.scope)
    (ht : t.handle.store.Gone l.scope) (config : Config) (hl : l.Plain) {args : List Value}
    (hargs : PlainItems args) :
    Agree (Severed s t l.scope) (Twins s t l.scope) (l.fire config args) (l.fire config args) := by
  obtain ⟨event, handler, scope⟩ := l
  cases handler with
  | callback f => exact False.elim hl
  | binding b =>
    refine (b.resolve_severed hs ht config hl).bind fun v w hvw => ?_
    cases hvw with
    | function hfg => exact (Severed.lockstep hs ht).call hfg (AlikeItems.refl hargs)
    | _ =>
      unfold deliver
      cases b
      case expression => exact Agree.pure (by constructor <;> assumption)
      all_goals exact Agree.throw _

/-! ### Parameters in sight -/

/-- No parameter of a call that was made so far holds a function. -/
def Session.Argless (s : Session) : Prop :=
  ∀ params ∈ s.calls, PlainMembers params

/-- The session before anything was called in it. -/
def Session.uncalled (s : Session) : Session := { s with calls := #[] }

/-- Every call there is corresponds to itself. -/
theorem SameCall.uncalled (i : LocalId) : SameCall s.uncalled s.uncalled i i :=
  ⟨i, (Nat.zero_add i).symm, (Nat.zero_add i).symm⟩

theorem Severed.uncalled (h : s.Argless) : Severed s.uncalled s.uncalled id s s where
  functions := ⟨0, rfl, rfl⟩
  calls := .uncalled _
  params i j hij := by
    obtain rfl : i = j := (SameCall.uncalled i).eq_iff hij |>.1 rfl
    cases hi : s.calls[i]? with
    | none => exact .nil
    | some params => exact AlikeMembers.refl (h params (Array.mem_of_getElem? hi))
  left := rfl
  right := rfl

/-- **An expression** in a scope that is gone, within any calls, when none of their parameters holds
a function. -/
theorem Expr.eval_severed (hs : s.handle.store.Gone id) (hargs : s.Argless) (e : Expr)
    (calls : List LocalId) : ((e.eval Callable.call ⟨id, calls⟩).runOn s).2.handle = s.handle := by
  have hpaired : Place.Paired ⟨id, calls⟩ ⟨id, calls⟩ (SameCall s.uncalled s.uncalled)
      (fun i j => i = id ∧ j = id) :=
    ⟨⟨rfl, rfl⟩, List.forall₂_same.2 fun i _ => .uncalled i⟩
  have hlock := Severed.lockstep (s := s.uncalled) (t := s.uncalled) hs hs
  exact (hlock.eval e hpaired s s (.uncalled hargs)).2.left

/-- **A function** that was made in a scope that is gone, called with arguments that are none. -/
theorem Callable.call_severed (hs : s.handle.store.Gone id) (hargs : s.Argless) (n : Nat)
    (params : List String) (body : Body) (calls : List LocalId) {args : List Value}
    (hplain : PlainItems args) :
    (((Callable.lambda n params body calls id).call args).runOn s).2.handle = s.handle := by
  have hlock := Severed.lockstep (s := s.uncalled) (t := s.uncalled) hs hs
  have hcalls : List.Forall₂ (SameCall s.uncalled s.uncalled) calls calls :=
    List.forall₂_same.2 fun i _ => .uncalled i
  -- the function need not be one of those that the runs make: its body is what is evaluated
  have hbody := invoke_lockstep (w := fun _ _ => False) hlock.within
    (callWithin_lockstep hlock.within (depthLimit - 1)) params body hcalls ⟨rfl, rfl⟩
    Holding.covers_nil (confine_true _) (AlikeItems.refl hplain)
  exact (Lockstep.agree hbody s s (.uncalled hargs)).2.left

/-! ### What was swept -/

/-- **A released scope stays released.** A scope that a pass swept is not live again, whatever is
asked of the store from then on: all that is asked of it fails, and an operation that is given it
changes nothing. Neither does a script that runs there, a listener without functions that was kept
from there, or an expression or a function whose parameters hold no functions: they tell nobody of
anything, and what the script and the listener come to does not depend on what the store holds. -/
theorem swept_for_good (before after : List Store.Operation) (id : ScopeId)
    (h : (Store.new.run before).Sweeps id) (s : Session)
    (hs : s.handle.store = Store.new.run (before ++ .finishPass :: after)) :
    s.handle.store.Gone id ∧
    (∀ ns keys v, s.handle.write id ns keys v = .error (Store.lateWrite ns keys)) ∧
    (∀ path v, ∃ e, s.handle.writePath id path v = .error e) ∧
    (∀ (script : Script) (t : Session), t.handle.store.Gone id →
      Unseeing s t id (script.run id)) ∧
    (∀ (config : Config) (l : Listener) (args : List Value) (t : Session), l.scope = id →
      l.Plain → PlainItems args → t.handle.store.Gone id →
        Unseeing s t id (l.fire config args)) ∧
    (s.Argless → ∀ (e : Expr) (calls : List LocalId),
      ((e.eval Callable.call ⟨id, calls⟩).runOn s).2.handle = s.handle) ∧
    (s.Argless → ∀ (n : Nat) (params : List String) (body : Body) (calls : List LocalId)
      (args : List Value), PlainItems args →
        (((Callable.lambda n params body calls id).call args).runOn s).2.handle = s.handle) := by
  have hgone : s.handle.store.Gone id := hs ▸ h.gone after
  refine ⟨hgone, Handle.write_gone hgone, fun path v => ⟨_, Handle.writePath_gone hgone path v⟩,
    fun script t ht => .of_agree (script.run_severed hgone ht), ?_,
    fun hargs e calls => e.eval_severed hgone hargs calls,
    fun hargs n params body calls args hplain =>
      Callable.call_severed hgone hargs n params body calls hplain⟩
  rintro config l args t rfl hl hplain ht
  exact .of_agree (l.fire_severed hgone ht config hl hplain)

/-- A door is opened in one pass and not touched by the next. -/
def doorBefore : List Store.Operation :=
  [.openSpace Store.rootId "0:door" "door", .addData 1 "door" [("open", .bool false)], .beginPass]

/-- Another one is opened at its address. -/
def doorAfter : List Store.Operation :=
  [.beginPass, .openSpace Store.rootId "0:door" "door", .addData 2 "door" [("open", .bool false)]]

/-- A session with the second door. -/
def Session.rehung : Session :=
  { Session.new with
    handle :=
      { Handle.new with store := Store.new.run (doorBefore ++ .finishPass :: doorAfter) } }

/-- What the first door did when it was clicked. -/
def doorListener : Listener :=
  ⟨"click", .binding (.expression "|> door.open = true"), 1⟩

/-- A listener that was kept from the first door is fired when the second one is at its address: it
leaves that one as it is, and comes to the same where there is no door at all. -/
theorem swept_for_good_door : (Store.new.run doorBefore).Sweeps 1 ∧
    Session.rehung.handle.store.scopeAt? "/0:door" = some 2 ∧
    Session.rehung.handle.store.get 1 ⟨"door", none, ["open"]⟩ = .error .released ∧
    Unseeing Session.rehung Session.new 1 (doorListener.fire ⟨true⟩ []) := by
  have hsweeps : (Store.new.run doorBefore).Sweeps 1 := ⟨rfl, rfl⟩
  have hnew : Session.new.handle.store.Gone 1 := Store.Sound.new.gone rfl
  obtain ⟨hgone, -, -, -, hfire, -⟩ :=
    swept_for_good doorBefore doorAfter 1 hsweeps Session.rehung rfl
  exact ⟨hsweeps, rfl, hgone.get _, hfire ⟨true⟩ doorListener [] Session.new rfl trivial trivial hnew⟩

end Trellis
