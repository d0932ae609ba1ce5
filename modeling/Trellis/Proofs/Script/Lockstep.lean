import Trellis.Proofs.Script.Corresponding
import Trellis.Proofs.Script.Uses
import Trellis.Proofs.Value.Focus

/-!
# Evaluation in lockstep

Two runs of an expression in places that are alike go step by step: the functions they make and the
calls they enter correspond by their distance from the first. What the two runs keep of the scopes
is a parameter, as long as reading and writing the namespaces that the expression uses comes out
alike. A function carries what it uses with it, and the parameters around it are those of the calls
it was made in, so that it uses no namespaces otherwise wherever it is called.

* `LockstepWithin`: what two runs keep that use namespaces in the ways `N` and in no others.
* `Expr.eval_lockstep`, `Callable.call_lockstep`, `Script.run_within`: expressions, calls and
  scripts.
* `Lockstep`, `Script.run_lockstep`: the same for runs that may use any namespace.
-/

namespace Trellis

open Value Act

/-- What two runs begun in `s` and `t` keep that read and write the namespaces as `N` allows, where
what may be written may be read. `F` relates functions and `S` scopes: functions are lambdas made in
corresponding calls and related scopes, which use no parameters but those of the calls, and from
related scopes the namespaces look alike. -/
structure LockstepWithin (N : Use → Prop) (s t : Session)
    (I : Holding → Session → Session → Prop) (F : Holding → Callable → Callable → Prop)
    (S : ScopeId → ScopeId → Prop) : Prop where
  below : ∀ ns, N (.write ns) → N (.read ns)
  faithful : ∀ w, Faithful (F w)
  mono : ∀ {w w'}, w ≤ w' → ∀ f g, F w f g → F w' f g
  fresh : ∀ {w} n params body {held calls calls' i j}, List.Forall₂ (SameCall s t) calls calls' →
    S i j → w.Covers calls held → Confine N (body.uses (params.reverse ++ held)) →
    F w (.lambda (s.nextFunction + n) params body calls i)
      (.lambda (t.nextFunction + n) params body calls' j)
  lambda : ∀ {w f g}, F w f g → ∃ id id' params body calls calls' i j held,
    f = .lambda id params body calls i ∧ g = .lambda id' params body calls' j ∧
      List.Forall₂ (SameCall s t) calls calls' ∧ S i j ∧ w.Covers calls held ∧
      Confine N (body.uses (params.reverse ++ held))
  counts : ∀ {w s' t'}, I w s' t' → SameCalls s t (F w) s' t'
  known : ∀ {w s' t'}, I w s' t' → w.TrueOf s'
  inner : ∀ {w s' t'}, I w s' t' → ∀ {w' s'' t''}, w ≤ w' →
    s''.handle = s'.handle → s''.visits = s'.visits →
    t''.handle = t'.handle → t''.visits = t'.visits →
    SameCalls s t (F w') s'' t'' → w'.TrueOf s'' → I w' s'' t''
  reads : ∀ {w s' t'}, I w s' t' → ∀ {i j}, S i j → ∀ ns, N (.read ns) →
    SameOutcome (Option.Rel (Alike (F w))) (s'.store.spaceData? i ns) (t'.store.spaceData? j ns)
  writes : ∀ {w s' t'}, I w s' t' → ∀ {i j}, S i j → ∀ ns, N (.write ns) →
    ∀ keys {v v'}, Alike (F w) v v' →
    SameOutcome (fun h h' => I w { s' with handle := h } { t' with handle := h' })
      (s'.handle.write i ns keys v) (t'.handle.write j ns keys v')

/-- Places alike: related scopes, and corresponding calls. -/
structure Place.Paired (p q : Place) (C : LocalId → LocalId → Prop)
    (S : ScopeId → ScopeId → Prop) : Prop where
  scope : S p.scope q.scope
  calls : List.Forall₂ C p.calls q.calls

section Within

variable {N : Use → Prop} {s t : Session} {I : Holding → Session → Session → Prop}
  {F : Holding → Callable → Callable → Prop} {S : ScopeId → ScopeId → Prop} {p q : Place}
  {w : Holding} {held : List String}

/-! ### Parameters -/

/-- Parameters of corresponding calls are alike, and those that are known are there. -/
theorem parameters_lockstep (h : LockstepWithin N s t I F S) {i j : Nat} (hij : SameCall s t i j) :
    Agree (I w) (fun ps ps' => AlikeMembers (F w) ps ps' ∧
      ∀ name, w i name → (Members.get? ps name).isSome) (parameters i) (parameters j) :=
  fun _ _ hI => ⟨⟨(h.counts hI).params i j hij, h.known hI i⟩, hI⟩

/-- A name that no call holds is no known parameter of any. -/
theorem holder?_lockstep (h : LockstepWithin N s t I F S) (name : String) {ids ids' : List LocalId}
    (hids : List.Forall₂ (SameCall s t) ids ids') :
    Agree (I w)
      (fun x y => Option.Rel (fun x y => SameCall s t x.1 y.1 ∧ Alike (F w) x.2 y.2) x y ∧
        (x = none → ∀ i ∈ ids, ¬ w i name))
      (holder? name ids) (holder? name ids') := by
  induction hids with
  | nil => exact Agree.pure ⟨.none, nofun⟩
  | @cons i j ids ids' hij _ ih =>
    rw [holder?, holder?]
    refine Agree.bind (parameters_lockstep h hij) fun ps ps' hps => ?_
    obtain ⟨hps, hknown⟩ := hps
    have hv := hps.get? name
    have hi := hknown name
    revert hv hi
    cases Members.get? ps name <;> cases Members.get? ps' name <;> intro hv hi
    · intro s' t' hI
      obtain ⟨ho, hI⟩ := ih s' t' hI
      refine ⟨ho.mono fun x y hxy => ⟨hxy.1, fun hx => ?_⟩, hI⟩
      exact List.forall_mem_cons.2 ⟨fun hw => Bool.false_ne_true (hi hw), hxy.2 hx⟩
    · cases hv
    · cases hv
    · cases hv with
      | some hv => exact Agree.pure ⟨.some ⟨hij, hv⟩, nofun⟩

theorem enterCall_lockstep (h : LockstepWithin N s t I F S) {params : List String}
    {ps ps' : Members Value} (hps : AlikeMembers (F w) ps ps')
    (hparams : ∀ name ∈ params, (Members.get? ps name).isSome) :
    AgreeFrom I (fun w i j => SameCall s t i j ∧ ∀ name ∈ params, w i name) w
      (enterCall ps) (enterCall ps') := by
  intro s' t' hI
  have hcounts := h.counts hI
  have hw := w.le_enter s'.calls.size params
  refine ⟨w.enter s'.calls.size params, hw,
    ⟨hcounts.calls, fun name hname => .inr ⟨rfl, hname⟩⟩, ?_⟩
  exact h.inner hI hw rfl rfl rfl rfl ((hcounts.enterCall hps).mono (h.mono hw))
    ((h.known hI).enterCall hparams)

theorem setParameter_lockstep (h : LockstepWithin N s t I F S) {i j : Nat}
    (hij : SameCall s t i j) (name : String) {v v' : Value} (hv : Alike (F w) v v') :
    Agree (I w) (fun _ _ => True) (setParameter i name v) (setParameter j name v') :=
  fun _ _ hI => ⟨trivial, h.inner hI (le_refl w) rfl rfl rfl rfl
    ((h.counts hI).setParameter hij name hv) ((h.known hI).setParameter i name v)⟩

theorem storeParameter_lockstep (h : LockstepWithin N s t I F S) {i j : Nat}
    (hij : SameCall s t i j) (root : String) (keys : List String) {v v' : Value}
    (hv : Alike (F w) v v') :
    Agree (I w) (fun _ _ => True) (storeParameter i root keys v)
      (storeParameter j root keys v') := by
  unfold storeParameter
  refine Agree.bind (parameters_lockstep h hij) fun ps ps' hps => ?_
  have hold := hps.1.get? root
  revert hold
  cases Members.get? ps root <;> cases Members.get? ps' root <;> intro hold
  · exact Agree.pure trivial
  · cases hold
  · cases hold
  · rename_i old old'
    cases hold with
    | some hold =>
      have hnew := Alike.replace hv keys hold
      simp only [store_eq_replace]
      revert hnew
      cases old.replace keys v <;> cases old'.replace keys v' <;> intro hnew
      · cases hnew; exact Agree.throw _
      · exact hnew.elim
      · exact hnew.elim
      · exact setParameter_lockstep h hij root hnew

theorem parameterMember_lockstep (h : LockstepWithin N s t I F S) {i j : Nat}
    (hij : SameCall s t i j) (root : String) (keys : List String) :
    Agree (I w) (Alike (F w)) (parameterMember i root keys) (parameterMember j root keys) :=
  Agree.bind (parameters_lockstep h hij) fun _ _ hps =>
    Agree.ofExcept ((Alike.getD (hps.1.get? root)).readAll keys)

/-! ### Names and assignments -/

theorem spaceData?_lockstep (h : LockstepWithin N s t I F S) (hp : p.Paired q (SameCall s t) S)
    {name : String} (hname : N (.read name)) :
    Agree (I w) (Option.Rel (Alike (F w))) (scopes (·.spaceData? p.scope name))
      (scopes (·.spaceData? q.scope name)) := by
  intro s' t' hI
  rw [runOn_scopes, runOn_scopes]
  exact ⟨h.reads hI hp.scope name hname, hI⟩

theorem globalValue?_plain {name : String} {v : Value} (h : globalValue? name = some v) :
    v.Plain := by
  unfold globalValue? at h
  split at h <;> cases h <;> trivial

/-- **Names**: a parameter in sight, a name that every expression knows, or a namespace. -/
theorem Place.lookup_lockstep (h : LockstepWithin N s t I F S) (hp : p.Paired q (SameCall s t) S)
    (hcov : w.Covers p.calls held) {name : String}
    (hname : name ∈ held ∨ (globalValue? name).isSome ∨ N (.read name)) :
    Agree (I w) (Alike (F w)) (p.lookup name) (q.lookup name) := by
  unfold Place.lookup
  refine Agree.bind (holder?_lockstep h name hp.calls) fun found found' hfound => ?_
  obtain ⟨hfound, hnone⟩ := hfound
  cases hfound with
  | some hv => exact Agree.pure hv.2
  | none =>
    simp only
    cases hg : globalValue? name with
    | some v => exact Agree.pure (Alike.refl (globalValue?_plain hg))
    | none =>
      rw [hg] at hname
      -- no parameter has the name, so it is that of a namespace
      have hns : N (.read name) := (hcov.of_absent (hnone rfl) hname).resolve_left Bool.false_ne_true
      refine Agree.bind (spaceData?_lockstep h hp hns) fun data data' hdata => ?_
      cases hdata with
      | some hv => exact Agree.pure hv
      | none => exact Agree.throw _

theorem Place.member_lockstep (h : LockstepWithin N s t I F S) (hp : p.Paired q (SameCall s t) S)
    (hcov : w.Covers p.calls held) {root : String} (hroot : root ∈ held ∨ N (.read root))
    (keys : List String) :
    Agree (I w) (Alike (F w)) (p.member root keys) (q.member root keys) :=
  Agree.bind (p.lookup_lockstep h hp hcov (hroot.imp_right .inr)) fun _ _ hv =>
    Agree.ofExcept (hv.readAll keys)

theorem AssignOp.combine_lockstep (h : LockstepWithin N s t I F S)
    {current current' right right' : Act Value}
    (hcur : Agree (I w) (Alike (F w)) current current')
    (hright : AgreeFrom I (fun w => Alike (F w)) w right right') (op : AssignOp) :
    AgreeFrom I (fun w => Option.Rel (Alike (F w))) w (op.combine current right)
      (op.combine current' right') := by
  cases op with
  | assign => exact hright.bind fun _ _ _ _ hv => AgreeFrom.pure (.some hv)
  | arithmetic op =>
    -- the right side may make calls, after which the left side's value is still alike
    exact hcur.andFrom fun _ _ hv => hright.bind fun w₁ hw _ _ hv' =>
      AgreeFrom.pure (.some (Arithmetic.apply_alike (h.faithful w₁) op (hv.mono (h.mono hw)) hv'))
  | logical op =>
    refine hcur.andFrom fun v v' hv => ?_
    rw [LogicalOp.keeps_alike op hv]
    split
    · exact AgreeFrom.pure .none
    · exact hright.bind fun _ _ _ _ hv => AgreeFrom.pure (.some hv)

theorem assignParameter_lockstep (h : LockstepWithin N s t I F S) {i j : Nat}
    (hij : SameCall s t i j) (op : AssignOp) (root : String) (keys : List String)
    {right right' : Act Value} (hright : AgreeFrom I (fun w => Alike (F w)) w right right') :
    AgreeFrom I (fun w => Alike (F w)) w (assignParameter i op root keys right)
      (assignParameter j op root keys right') := by
  unfold assignParameter
  refine (op.combine_lockstep h (parameterMember_lockstep h hij root keys) hright).bind
    fun w₁ _ stored stored' hstored => ?_
  cases hstored with
  | none => exact Agree.lift (parameterMember_lockstep h hij root keys)
  | some hv =>
    exact (storeParameter_lockstep h hij root keys hv).andFrom fun _ _ _ => AgreeFrom.pure hv

/-- **Writes** come out alike, as reading does. -/
theorem writing_lockstep (h : LockstepWithin N s t I F S) (hp : p.Paired q (SameCall s t) S)
    {root : String} (hroot : N (.write root)) (keys : List String) {v v' : Value}
    (hv : Alike (F w) v v') :
    Agree (I w) (fun _ _ => True) (writing (·.write p.scope root keys v))
      (writing (·.write q.scope root keys v')) := by
  intro s' t' hI
  have hw := h.writes hI hp.scope root hroot keys hv
  rw [runOn_writing, runOn_writing]
  cases hs : s'.handle.write p.scope root keys v <;>
    cases ht : t'.handle.write q.scope root keys v' <;> rw [hs, ht] at hw
  · exact ⟨hw, hI⟩
  · exact hw.elim
  · exact hw.elim
  · exact ⟨trivial, hw⟩

theorem Place.store_lockstep (h : LockstepWithin N s t I F S) (hp : p.Paired q (SameCall s t) S)
    {root : String} (hroot : N (.write root)) (keys : List String) {v v' : Value}
    (hv : Alike (F w) v v') :
    Agree (I w) (fun _ _ => True) (p.store root keys v) (q.store root keys v') := by
  unfold Place.store
  refine Agree.bind (spaceData?_lockstep h hp (h.below root hroot)) fun data data' hdata => ?_
  cases hdata with
  | none => exact Agree.throw _
  | some _ => exact writing_lockstep h hp hroot keys hv

theorem Place.refuse_lockstep (h : LockstepWithin N s t I F S) (hp : p.Paired q (SameCall s t) S)
    {root : String} (hroot : N (.write root)) :
    Agree (I w) (Alike (F w)) (p.refuse root) (q.refuse root) := by
  unfold Place.refuse
  refine Agree.bind (spaceData?_lockstep h hp (h.below root hroot)) fun data data' hdata => ?_
  cases hdata with
  | none => exact Agree.throw _
  | some _ => exact Agree.throw _

theorem assignSpace_lockstep (h : LockstepWithin N s t I F S) (hp : p.Paired q (SameCall s t) S)
    (hcov : w.Covers p.calls held) (op : AssignOp) {root : String} (hroot : N (.write root))
    (keys : List String) {right right' : Act Value}
    (hright : AgreeFrom I (fun w => Alike (F w)) w right right') :
    AgreeFrom I (fun w => Alike (F w)) w (assignSpace p op root keys right)
      (assignSpace q op root keys right') := by
  unfold assignSpace
  split
  · exact Agree.lift (p.refuse_lockstep h hp hroot)
  have hread : root ∈ held ∨ N (.read root) := .inr (h.below root hroot)
  refine (op.combine_lockstep h (p.member_lockstep h hp hcov hread keys) hright).bind
    fun w₁ hw stored stored' hstored => ?_
  cases hstored with
  | none => exact Agree.lift (p.member_lockstep h hp (hcov.mono hw) hread keys)
  | some hv => exact (p.store_lockstep h hp hroot keys hv).andFrom fun _ _ _ => AgreeFrom.pure hv

theorem assignTo_lockstep (h : LockstepWithin N s t I F S) (hp : p.Paired q (SameCall s t) S)
    (hcov : w.Covers p.calls held) (op : AssignOp) {root : String}
    (hroot : root ∈ held ∨ N (.write root)) (keys : List String) {right right' : Act Value}
    (hright : AgreeFrom I (fun w => Alike (F w)) w right right') :
    AgreeFrom I (fun w => Alike (F w)) w (assignTo p op root keys right)
      (assignTo q op root keys right') := by
  unfold assignTo
  refine (holder?_lockstep h root hp.calls).andFrom fun found found' hfound => ?_
  obtain ⟨hfound, hnone⟩ := hfound
  cases hfound with
  | some hv => exact assignParameter_lockstep h hv.1 op root keys hright
  | none =>
    exact assignSpace_lockstep h hp hcov op (hcov.of_absent (hnone rfl) hroot) keys hright

/-! ### Functions -/

/-- New functions are corresponding ones, and carry what they use with them. -/
theorem Place.closure_lockstep (h : LockstepWithin N s t I F S) (hp : p.Paired q (SameCall s t) S)
    (hcov : w.Covers p.calls held) {params : List String} {body : Body}
    (hbody : Confine N (body.uses (params.reverse ++ held))) :
    Agree (I w) (Alike (F w)) (p.closure params body) (q.closure params body) := by
  intro s' t' hI
  have hcounts := h.counts hI
  obtain ⟨n, hn, hn'⟩ := hcounts.functions
  -- the numbers of the new functions are those of the first ones and `n` more
  have hknown := h.known hI
  refine ⟨?_, h.inner hI (le_refl w) rfl rfl rfl rfl
    ⟨⟨n + 1, ?_, ?_⟩, hcounts.calls, hcounts.params⟩ hknown⟩
  · change Alike (F w) (.function (.lambda s'.nextFunction params body p.calls p.scope))
      (.function (.lambda t'.nextFunction params body q.calls q.scope))
    rw [hn, hn']
    exact .function (h.fresh n params body hp.calls hp.scope hcov hbody)
  · change s'.nextFunction + 1 = _
    omega
  · change t'.nextFunction + 1 = _
    omega

/-- Calls of related functions with arguments alike. -/
def CallsAlike (I : Holding → Session → Session → Prop) (F : Holding → Callable → Callable → Prop)
    (call : Callable → List Value → Act Value) : Prop :=
  ∀ w f g args args', F w f g → AlikeItems (F w) args args' →
    AgreeFrom I (fun w => Alike (F w)) w (call f args) (call g args')

theorem callValue_lockstep {call : Callable → List Value → Act Value}
    (hc : CallsAlike I F call) (label : String) {args args' : List Value}
    (hargs : AlikeItems (F w) args args') {v v' : Value} (hv : Alike (F w) v v') :
    AgreeFrom I (fun w => Alike (F w)) w (callValue call label args v)
      (callValue call label args' v') := by
  cases hv
  case function hf => exact hc w _ _ _ _ hf hargs
  all_goals exact AgreeFrom.throw _

section Expressions

variable {call : Callable → List Value → Act Value}

mutual

/-- **Expressions** go in lockstep if calls do. -/
theorem Expr.eval_lockstep (h : LockstepWithin N s t I F S) (hc : CallsAlike I F call)
    (hp : p.Paired q (SameCall s t) S) :
    ∀ (e : Expr) {w : Holding}, w.Covers p.calls held → Confine N (e.uses held) →
      AgreeFrom I (fun w => Alike (F w)) w (e.eval call p) (e.eval call q)
  | .literal v, w, _, _ => by
    rw [Expr.eval, Expr.eval]
    exact AgreeFrom.pure (Alike.refl (by cases v <;> trivial))
  | .name id, w, hcov, hu => by
    rw [Expr.uses, confine_outside] at hu
    rw [Expr.eval, Expr.eval]
    exact Agree.lift (p.lookup_lockstep h hp hcov hu)
  | .template head parts, w, hcov, hu => by
    rw [Expr.uses] at hu
    rw [Expr.eval, Expr.eval]
    refine (evalParts_lockstep h hc hp parts hcov hu).bind fun _ _ text text' htext => ?_
    rw [htext]
    exact AgreeFrom.pure (.string _)
  | .member owner property, w, hcov, hu => by
    rw [Expr.uses, confine_append] at hu
    rw [Expr.eval, Expr.eval]
    refine (owner.eval_lockstep h hc hp hcov hu.1).bind fun w₁ hw v v' hv => ?_
    refine (property.eval_lockstep h hc hp (hcov.mono hw) hu.2).bind fun w₂ hw₂ key key' hkey => ?_
    rw [hkey]
    exact AgreeFrom.ofExcept ((hv.mono (h.mono hw₂)).read key')
  | .array items, w, hcov, hu => by
    rw [Expr.uses] at hu
    rw [Expr.eval, Expr.eval]
    exact (evalItems_lockstep h hc hp items hcov hu).bind fun _ _ _ _ hv =>
      AgreeFrom.pure (.array hv)
  | .object entries, w, hcov, hu => by
    rw [Expr.uses] at hu
    rw [Expr.eval, Expr.eval]
    exact (evalEntries_lockstep h hc hp entries hcov hu).bind fun _ _ _ _ hv =>
      AgreeFrom.pure (.object hv.ofList)
  | .unary op argument, w, hcov, hu => by
    rw [Expr.uses] at hu
    rw [Expr.eval, Expr.eval]
    exact (argument.eval_lockstep h hc hp hcov hu).bind fun _ _ _ _ hv =>
      AgreeFrom.pure (op.apply_alike hv)
  | .binary op left right, w, hcov, hu => by
    rw [Expr.uses, confine_append] at hu
    rw [Expr.eval, Expr.eval]
    refine (left.eval_lockstep h hc hp hcov hu.1).bind fun w₁ hw _ _ hv => ?_
    refine (right.eval_lockstep h hc hp (hcov.mono hw) hu.2).bind fun w₂ hw₂ _ _ hv' => ?_
    exact AgreeFrom.pure (op.apply_alike (h.faithful w₂) (hv.mono (h.mono hw₂)) hv')
  | .logical op left right, w, hcov, hu => by
    rw [Expr.uses, confine_append] at hu
    rw [Expr.eval, Expr.eval]
    refine (left.eval_lockstep h hc hp hcov hu.1).bind fun w₁ hw v v' hv => ?_
    rw [op.keeps_alike hv]
    split
    · exact AgreeFrom.pure hv
    · exact right.eval_lockstep h hc hp (hcov.mono hw) hu.2
  | .conditional test yes no, w, hcov, hu => by
    rw [Expr.uses, confine_append, confine_append] at hu
    rw [Expr.eval, Expr.eval]
    refine (test.eval_lockstep h hc hp hcov hu.1).bind fun w₁ hw v v' hv => ?_
    rw [hv.truthy_eq]
    split
    · exact yes.eval_lockstep h hc hp (hcov.mono hw) hu.2.1
    · exact no.eval_lockstep h hc hp (hcov.mono hw) hu.2.2
  | .assign op target value, w, hcov, hu => by
    rw [Expr.uses, confine_append] at hu
    rw [Expr.eval, Expr.eval]
    refine (target.eval_lockstep h hc hp hcov hu.1).bind fun w₁ hw place place' hplace => ?_
    obtain ⟨rfl, hroot⟩ := hplace
    exact assignTo_lockstep h hp (hcov.mono hw) op hroot _
      (value.eval_lockstep h hc hp (hcov.mono hw) hu.2)
  | .call callee arguments, w, hcov, hu => by
    rw [Expr.uses, confine_append] at hu
    rw [Expr.eval, Expr.eval]
    refine (callee.eval_lockstep h hc hp hcov hu.1).bind fun w₁ hw _ _ hv => ?_
    refine (evalItems_lockstep h hc hp arguments (hcov.mono hw) hu.2).bind fun w₂ hw₂ _ _ hargs => ?_
    exact callValue_lockstep hc callee.label hargs (hv.mono (h.mono hw₂))
  | .lambda params body, w, hcov, hu => by
    rw [Expr.uses] at hu
    rw [Expr.eval, Expr.eval]
    exact Agree.lift (p.closure_lockstep h hp hcov hu)
  | .sequence items, w, hcov, hu => by
    rw [Expr.uses] at hu
    rw [Expr.eval, Expr.eval]
    exact (evalItems_lockstep h hc hp items hcov hu).bind fun _ _ _ _ hv =>
      AgreeFrom.pure (hv.getLastD .null)

theorem Property.eval_lockstep (h : LockstepWithin N s t I F S) (hc : CallsAlike I F call)
    (hp : p.Paired q (SameCall s t) S) :
    ∀ (property : Property) {w : Holding}, w.Covers p.calls held → Confine N (property.uses held) →
      AgreeFrom I (fun _ => Eq) w (property.eval call p) (property.eval call q)
  | .static name, w, _, _ => by rw [Property.eval, Property.eval]; exact AgreeFrom.pure rfl
  | .computed key, w, hcov, hu => by
    rw [Property.uses] at hu
    rw [Property.eval, Property.eval]
    refine (key.eval_lockstep h hc hp hcov hu).bind fun _ _ v v' hv => ?_
    rw [hv.asKey_eq]
    exact AgreeFrom.ofExcept (SameOutcome.refl (fun _ => rfl) _)

/-- Both runs assign to the same place, below a parameter in sight or a namespace that may be
written. -/
theorem Target.eval_lockstep (h : LockstepWithin N s t I F S) (hc : CallsAlike I F call)
    (hp : p.Paired q (SameCall s t) S) :
    ∀ (target : Target) {w : Holding}, w.Covers p.calls held → Confine N (target.uses held) →
      AgreeFrom I (fun _ place place' => place = place' ∧ (place'.1 ∈ held ∨ N (.write place'.1))) w
        (target.eval call p) (target.eval call q)
  | .name id, w, _, hu => by
    rw [Target.uses, confine_outside] at hu
    rw [Target.eval, Target.eval]
    exact AgreeFrom.pure ⟨rfl, hu⟩
  | .member owner property, w, hcov, hu => by
    rw [Target.uses, confine_append] at hu
    rw [Target.eval, Target.eval]
    refine (owner.evalChain_lockstep h hc hp hcov hu.1).bind fun w₁ hw place place' hplace => ?_
    obtain ⟨rfl, hroot⟩ := hplace
    refine (property.eval_lockstep h hc hp (hcov.mono hw) hu.2).bind fun _ _ key key' hkey => ?_
    rw [hkey]
    exact AgreeFrom.pure ⟨rfl, hroot⟩

theorem Expr.evalChain_lockstep (h : LockstepWithin N s t I F S) (hc : CallsAlike I F call)
    (hp : p.Paired q (SameCall s t) S) :
    ∀ (e : Expr) {w : Holding}, w.Covers p.calls held → Confine N (e.chainUses held) →
      AgreeFrom I (fun _ place place' => place = place' ∧ (place'.1 ∈ held ∨ N (.write place'.1))) w
        (e.evalChain call p) (e.evalChain call q)
  | .name id, w, _, hu => by
    rw [Expr.chainUses, confine_outside] at hu
    rw [Expr.evalChain, Expr.evalChain]
    exact AgreeFrom.pure ⟨rfl, hu⟩
  | .member owner property, w, hcov, hu => by
    rw [Expr.chainUses, confine_append] at hu
    rw [Expr.evalChain, Expr.evalChain]
    refine (owner.evalChain_lockstep h hc hp hcov hu.1).bind fun w₁ hw place place' hplace => ?_
    obtain ⟨rfl, hroot⟩ := hplace
    refine (property.eval_lockstep h hc hp (hcov.mono hw) hu.2).bind fun _ _ key key' hkey => ?_
    rw [hkey]
    exact AgreeFrom.pure ⟨rfl, hroot⟩
  | .literal _, _, _, _ | .template _ _, _, _, _ | .array _, _, _, _ | .object _, _, _, _
  | .unary _ _, _, _, _ | .binary _ _ _, _, _, _ | .logical _ _ _, _, _, _
  | .conditional _ _ _, _, _, _ | .assign _ _ _, _, _, _ | .call _ _, _, _, _
  | .lambda _ _, _, _, _ | .sequence _, _, _, _ => by
    rw [Expr.evalChain, Expr.evalChain]
    · exact AgreeFrom.throw _
    all_goals simp

theorem evalParts_lockstep (h : LockstepWithin N s t I F S) (hc : CallsAlike I F call)
    (hp : p.Paired q (SameCall s t) S) :
    ∀ (parts : List (Expr × String)) {w : Holding}, w.Covers p.calls held →
      Confine N (usesOfParts held parts) →
      AgreeFrom I (fun _ => Eq) w (evalParts call p parts) (evalParts call q parts)
  | [], w, _, _ => by rw [evalParts, evalParts]; exact AgreeFrom.pure rfl
  | (e, tail) :: rest, w, hcov, hu => by
    rw [usesOfParts, confine_append] at hu
    rw [evalParts, evalParts]
    refine (e.eval_lockstep h hc hp hcov hu.1).bind fun w₁ hw v v' hv => ?_
    refine (evalParts_lockstep h hc hp rest (hcov.mono hw) hu.2).bind fun _ _ text text' htext => ?_
    rw [hv.joined_eq (h.faithful w₁), htext]
    exact AgreeFrom.pure rfl

theorem evalItems_lockstep (h : LockstepWithin N s t I F S) (hc : CallsAlike I F call)
    (hp : p.Paired q (SameCall s t) S) :
    ∀ (items : List Expr) {w : Holding}, w.Covers p.calls held → Confine N (usesOfAll held items) →
      AgreeFrom I (fun w => AlikeItems (F w)) w (evalItems call p items) (evalItems call q items)
  | [], w, _, _ => by rw [evalItems, evalItems]; exact AgreeFrom.pure .nil
  | e :: rest, w, hcov, hu => by
    rw [usesOfAll, confine_append] at hu
    rw [evalItems, evalItems]
    refine (e.eval_lockstep h hc hp hcov hu.1).bind fun w₁ hw _ _ hv => ?_
    refine (evalItems_lockstep h hc hp rest (hcov.mono hw) hu.2).bind fun w₂ hw₂ _ _ hs => ?_
    exact AgreeFrom.pure (.cons (hv.mono (h.mono hw₂)) hs)

theorem evalEntries_lockstep (h : LockstepWithin N s t I F S) (hc : CallsAlike I F call)
    (hp : p.Paired q (SameCall s t) S) :
    ∀ (entries : List (String × Expr)) {w : Holding}, w.Covers p.calls held →
      Confine N (usesOfEntries held entries) →
      AgreeFrom I (fun w => AlikeMembers (F w)) w (evalEntries call p entries)
        (evalEntries call q entries)
  | [], w, _, _ => by rw [evalEntries, evalEntries]; exact AgreeFrom.pure .nil
  | (key, e) :: rest, w, hcov, hu => by
    rw [usesOfEntries, confine_append] at hu
    rw [evalEntries, evalEntries]
    refine (e.eval_lockstep h hc hp hcov hu.1).bind fun w₁ hw _ _ hv => ?_
    refine (evalEntries_lockstep h hc hp rest (hcov.mono hw) hu.2).bind fun w₂ hw₂ _ _ hs => ?_
    exact AgreeFrom.pure (.cons key (hv.mono (h.mono hw₂)) hs)

end

mutual

theorem Stmt.exec_lockstep (h : LockstepWithin N s t I F S) (hc : CallsAlike I F call)
    (hp : p.Paired q (SameCall s t) S) :
    ∀ (stmt : Stmt) {w : Holding}, w.Covers p.calls held → Confine N (stmt.uses held) →
      AgreeFrom I (fun w => Option.Rel (Alike (F w))) w (stmt.exec call p) (stmt.exec call q)
  | .expression e, w, hcov, hu => by
    rw [Stmt.uses] at hu
    rw [Stmt.exec, Stmt.exec]
    exact (e.eval_lockstep h hc hp hcov hu).bind fun _ _ _ _ _ => AgreeFrom.pure .none
  | .result none, w, _, _ => by rw [Stmt.exec, Stmt.exec]; exact AgreeFrom.pure (.some .null)
  | .result (some e), w, hcov, hu => by
    rw [Stmt.uses] at hu
    rw [Stmt.exec, Stmt.exec]
    exact (e.eval_lockstep h hc hp hcov hu).bind fun _ _ _ _ hv => AgreeFrom.pure (.some hv)
  | .branch test yes no, w, hcov, hu => by
    rw [Stmt.uses, confine_append, confine_append] at hu
    rw [Stmt.exec, Stmt.exec]
    refine (test.eval_lockstep h hc hp hcov hu.1).bind fun w₁ hw v v' hv => ?_
    rw [hv.truthy_eq]
    split
    · exact execAll_lockstep h hc hp yes (hcov.mono hw) hu.2.1
    · exact execAll_lockstep h hc hp no (hcov.mono hw) hu.2.2
  | .block statements, w, hcov, hu => by
    rw [Stmt.uses] at hu
    rw [Stmt.exec, Stmt.exec]
    exact execAll_lockstep h hc hp statements hcov hu

theorem execAll_lockstep (h : LockstepWithin N s t I F S) (hc : CallsAlike I F call)
    (hp : p.Paired q (SameCall s t) S) :
    ∀ (stmts : List Stmt) {w : Holding}, w.Covers p.calls held →
      Confine N (usesOfStatements held stmts) →
      AgreeFrom I (fun w => Option.Rel (Alike (F w))) w (execAll call p stmts) (execAll call q stmts)
  | [], w, _, _ => by rw [execAll, execAll]; exact AgreeFrom.pure .none
  | stmt :: rest, w, hcov, hu => by
    rw [usesOfStatements, confine_append] at hu
    rw [execAll, execAll]
    refine (stmt.exec_lockstep h hc hp hcov hu.1).bind fun w₁ hw returned returned' hv => ?_
    cases hv with
    | some hv => exact AgreeFrom.pure (.some hv)
    | none => exact execAll_lockstep h hc hp rest (hcov.mono hw) hu.2

end

theorem Body.run_lockstep (h : LockstepWithin N s t I F S) (hc : CallsAlike I F call)
    (hp : p.Paired q (SameCall s t) S) (hcov : w.Covers p.calls held) (body : Body)
    (hu : Confine N (body.uses held)) :
    AgreeFrom I (fun w => Alike (F w)) w (body.run call p) (body.run call q) := by
  cases body with
  | expression e =>
    rw [Body.uses] at hu
    exact e.eval_lockstep h hc hp hcov hu
  | block statements =>
    rw [Body.uses] at hu
    exact (execAll_lockstep h hc hp statements hcov hu).bind fun _ _ _ _ hv =>
      AgreeFrom.pure (Alike.getD hv)

theorem invoke_lockstep (h : LockstepWithin N s t I F S) (hc : CallsAlike I F call)
    (params : List String) (body : Body) {calls calls' : List LocalId}
    (hcalls : List.Forall₂ (SameCall s t) calls calls') {i j : ScopeId} (hij : S i j)
    (hcov : w.Covers calls held) (hu : Confine N (body.uses (params.reverse ++ held)))
    {args args' : List Value} (hargs : AlikeItems (F w) args args') :
    AgreeFrom I (fun w => Alike (F w)) w (invoke call params body calls i args)
      (invoke call params body calls' j args') := by
  have hps := bindParameters_alike hargs params
  refine (enterCall_lockstep h hps fun _ => get?_bindParameters args).bind fun w₁ hw id id' hid => ?_
  exact body.run_lockstep (p := ⟨i, id :: calls⟩) (q := ⟨j, id' :: calls'⟩) h hc
    ⟨hij, .cons hid.1 hcalls⟩ ((hcov.mono hw).cons hid.2) hu

end Expressions

/-- **Calls** of related functions, however deep they may be nested. -/
theorem Callable.callWithin_lockstep (h : LockstepWithin N s t I F S) (depth : Nat) :
    CallsAlike I F (callWithin depth) := by
  -- the body of a function calls others one level deeper
  induction depth with
  | zero => intro w f g args args' _ _; exact AgreeFrom.throw _
  | succ depth ih =>
    intro w f g args args' hf hargs
    obtain ⟨_, _, params, body, _, _, _, _, _, rfl, rfl, hcalls, hij, hcov, hu⟩ := h.lambda hf
    exact invoke_lockstep h ih params body hcalls hij hcov hu hargs

theorem Callable.call_lockstep (h : LockstepWithin N s t I F S) : CallsAlike I F Callable.call :=
  callWithin_lockstep h depthLimit

/-- **Scripts** in related scopes. -/
theorem Script.run_within (h : LockstepWithin N s t I F S) (script : Script)
    (hu : Confine N (script.expr.uses [])) {i j : ScopeId} (hij : S i j) (w : Holding) :
    AgreeFrom I (fun w => Alike (F w)) w (script.run i) (script.run j) :=
  script.expr.eval_lockstep (p := ⟨i, []⟩) (q := ⟨j, []⟩) h (Callable.call_lockstep h) ⟨hij, .nil⟩
    Holding.covers_nil hu

end Within

/-! ### Any namespace -/

/-- What two runs begun in `s` and `t` keep, where `F` relates functions and `S` scopes: functions
are lambdas made in corresponding calls and related scopes, and from related scopes the namespaces
look alike. -/
structure Lockstep (s t : Session) (I : Session → Session → Prop)
    (F : Callable → Callable → Prop) (S : ScopeId → ScopeId → Prop) : Prop where
  faithful : Faithful F
  fresh : ∀ n params body {calls calls' i j}, List.Forall₂ (SameCall s t) calls calls' → S i j →
    F (.lambda (s.nextFunction + n) params body calls i)
      (.lambda (t.nextFunction + n) params body calls' j)
  lambda : ∀ {f g}, F f g → ∃ id id' params body calls calls' i j,
    f = .lambda id params body calls i ∧ g = .lambda id' params body calls' j ∧
      List.Forall₂ (SameCall s t) calls calls' ∧ S i j
  counts : ∀ {s' t'}, I s' t' → SameCalls s t F s' t'
  inner : ∀ {s' t'}, I s' t' → ∀ {s'' t''}, s''.handle = s'.handle → s''.visits = s'.visits →
    t''.handle = t'.handle → t''.visits = t'.visits → SameCalls s t F s'' t'' → I s'' t''
  reads : ∀ {s' t'}, I s' t' → ∀ {i j}, S i j → ∀ ns,
    SameOutcome (Option.Rel (Alike F)) (s'.store.spaceData? i ns) (t'.store.spaceData? j ns)
  writes : ∀ {s' t'}, I s' t' → ∀ {i j}, S i j → ∀ ns keys {v w}, Alike F v w →
    SameOutcome (fun h h' => I { s' with handle := h } { t' with handle := h' })
      (s'.handle.write i ns keys v) (t'.handle.write j ns keys w)

theorem Lockstep.within {s t : Session} {I : Session → Session → Prop}
    {F : Callable → Callable → Prop} {S : ScopeId → ScopeId → Prop} (h : Lockstep s t I F S) :
    LockstepWithin (fun _ => True) s t (fun w s' t' => I s' t' ∧ w.TrueOf s') (fun _ => F) S where
  below _ _ := trivial
  faithful _ := h.faithful
  mono _ _ _ hfg := hfg
  fresh n params body _ _ _ _ _ hcalls hij _ _ := h.fresh n params body hcalls hij
  lambda hfg := by
    obtain ⟨id, id', params, body, calls, calls', i, j, hf, hg, hcalls, hij⟩ := h.lambda hfg
    exact ⟨id, id', params, body, calls, calls', i, j, [], hf, hg, hcalls, hij, Holding.covers_nil,
      confine_true _⟩
  counts hI := h.counts hI.1
  known hI := hI.2
  inner hI _ _ _ _ hs hsv ht htv hcounts hknown := ⟨h.inner hI.1 hs hsv ht htv hcounts, hknown⟩
  reads hI _ _ hij ns _ := h.reads hI.1 hij ns
  writes hI _ _ hij ns _ keys _ _ hv :=
    (h.writes hI.1 hij ns keys hv).mono fun _ _ h' => ⟨h', hI.2⟩

/-- **Scripts** in related scopes. -/
theorem Script.run_lockstep {s t : Session} {I : Session → Session → Prop}
    {F : Callable → Callable → Prop} {S : ScopeId → ScopeId → Prop} (h : Lockstep s t I F S)
    (script : Script) {i j : ScopeId} (hij : S i j) :
    Agree I (Alike F) (script.run i) (script.run j) := by
  intro s' t' hI
  -- nothing need be known of any call
  obtain ⟨_, _, ho, hI, _⟩ := script.run_within h.within (confine_true _) hij
    (fun _ _ => False) s' t' ⟨hI, nofun⟩
  exact ⟨ho, hI⟩

end Trellis
