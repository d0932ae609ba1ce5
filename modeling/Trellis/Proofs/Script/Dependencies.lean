import Trellis.Proofs.Scope.Plain
import Trellis.Proofs.Scope.Writes
import Trellis.Proofs.Script.Free
import Trellis.Proofs.Script.Isolation
import Mathlib.Logic.Relation

/-!
# Dependencies of scripts

Two runs of a script, begun in sessions in which a scope sees the same data under each of the
names the script depends on, go in step whatever else the stores hold: the functions they make
correspond and use no other namespaces when they are called. Nothing is written but to those
namespaces.

* `Handle.WrittenIn`: writes to some namespaces and nothing else.
* `Counterpart`: corresponding functions that use namespaces in some ways and in no others.
* `Seeing`: what two runs keep, step by step.
* `Script.DependenciesSuffice`: scripts, and calls of the functions they come to.
* `Script.dependencies_suffice`, `Script.dependencies_insufficient`: the sources whose dependencies
  suffice, and two whose do not.
-/

namespace Trellis

open Value Act

/-- The handle after some writes from a scope to namespaces `N`. -/
def Handle.WrittenIn (N : String → Prop) (scope : ScopeId) : Handle → Handle → Prop :=
  Relation.ReflTransGen fun h h' => ∃ ns keys v, N ns ∧ h.write scope ns keys v = .ok h'

/-- Functions that are equally far from the first one of two runs, made in corresponding calls, and
that use namespaces as `N` allows and parameters of those calls. -/
inductive Counterpart (N : Use → Prop) (s t : Session) (scope : ScopeId) (w : Holding) :
    Callable → Callable → Prop
  | lambda (n : Nat) (params : List String) (body : Body) {held : List String}
    {calls calls' : List LocalId} (hcalls : List.Forall₂ (SameCall s t) calls calls')
    (hcov : w.Covers calls held) (huses : Confine N (body.uses (params.reverse ++ held))) :
    Counterpart N s t scope w (.lambda (s.nextFunction + n) params body calls scope)
      (.lambda (t.nextFunction + n) params body calls' scope)

/-- What two runs begun in `s` and `t` have come to, if the scope sees alike data under the names that
`N` allows to read, and what they have written since their handles were `a` and `b`. -/
structure Seeing (N : Use → Prop) (s t : Session) (scope : ScopeId) (a b : Handle) (w : Holding)
    (s' t' : Session) : Prop where
  counts : SameCalls s t (Counterpart N s t scope w) s' t'
  known : w.TrueOf s'
  sees : ∀ ns, N (.read ns) → SameOutcome (Option.Rel (Alike (Counterpart N s t scope w)))
    (s'.store.spaceData? scope ns) (t'.store.spaceData? scope ns)
  left : Handle.WrittenIn (fun ns => N (.write ns)) scope a s'.handle
  right : Handle.WrittenIn (fun ns => N (.write ns)) scope b t'.handle

variable {N : Use → Prop} {s t s' t' : Session} {scope : ScopeId} {a b : Handle} {w w' : Holding}

theorem Counterpart.twin {f g : Callable} (h : Counterpart N s t scope w f g) :
    Twin s t scope f g := by
  obtain ⟨n, params, body, hcalls, -, -⟩ := h
  exact .lambda n params body hcalls

theorem Counterpart.mono (hw : w ≤ w') {f g : Callable} (h : Counterpart N s t scope w f g) :
    Counterpart N s t scope w' f g := by
  obtain ⟨n, params, body, hcalls, hcov, huses⟩ := h
  exact .lambda n params body hcalls (hcov.mono hw) huses

theorem Counterpart.faithful : Faithful (Counterpart N s t scope w) where
  name h := Twin.faithful.name h.twin
  id h h' := Twin.faithful.id h.twin h'.twin

/-- Data without functions that is the same to begin with is alike. -/
theorem Seeing.start (hplain : s.store.Plain)
    (h : ∀ ns, N (.read ns) → s.store.spaceData? scope ns = t.store.spaceData? scope ns) :
    Seeing N s t scope s.handle t.handle (fun _ _ => False) s t where
  counts := .start
  known := nofun
  sees ns hns := by
    have hdata : Tame (fun data => ∀ v ∈ data, v.Plain) (s.store.spaceData? scope ns) :=
      hplain.spaceData? ns
    rw [← h ns hns]
    revert hdata
    cases s.store.spaceData? scope ns with
    | error e => exact fun _ => rfl
    | ok data =>
      intro hdata
      cases data with
      | none => exact .none
      | some v => exact .some (Alike.refl (hdata v rfl))
  left := .refl
  right := .refl

/-- What is written from now on. -/
theorem Seeing.onward (h : Seeing N s t scope a b w s' t') :
    Seeing N s t scope s'.handle t'.handle w s' t' :=
  ⟨h.counts, h.known, h.sees, .refl, .refl⟩

/-- **Writes** that `N` allows, as it does reading what they change, go in step. -/
theorem Seeing.write (h : Seeing N s t scope a b w s' t') {ns : String} (hread : N (.read ns))
    (hns : N (.write ns)) (keys : List String) {v v' : Value}
    (hv : Alike (Counterpart N s t scope w) v v') :
    SameOutcome
      (fun h h' => Seeing N s t scope a b w { s' with handle := h } { t' with handle := h' })
      (s'.handle.write scope ns keys v) (t'.handle.write scope ns keys v') := by
  -- what either write makes of the namespaces is decided by the data it finds, which is alike
  have halike := Handle.rewritten_alike (h.sees ns hread) ns keys hv
  have hboth := ((s'.handle.write_rewritten scope ns keys v).trans halike).trans
    (t'.handle.write_rewritten scope ns keys v').flip
  cases hs : s'.handle.write scope ns keys v with
  | error e =>
    cases ht : t'.handle.write scope ns keys v' with
    | error e' => rw [hs, ht] at hboth; exact hboth
    | ok h₂ => rw [hs, ht] at hboth; exact hboth.elim
  | ok h₁ =>
    cases ht : t'.handle.write scope ns keys v' with
    | error e' => rw [hs, ht] at hboth; exact hboth.elim
    | ok h₂ =>
      rw [hs, ht] at hboth
      obtain ⟨data', ⟨data, hleft, hdata⟩, hright⟩ := hboth
      refine ⟨⟨h.counts.functions, h.counts.calls, h.counts.params⟩, h.known, fun ns' hns' => ?_,
        h.left.tail ⟨ns, keys, v, hns, hs⟩, h.right.tail ⟨ns, keys, v', hns, ht⟩⟩
      change SameOutcome _ (h₁.store.spaceData? scope ns') (h₂.store.spaceData? scope ns')
      rw [hleft, hright]
      split
      · exact .some hdata
      · exact h.sees ns' hns'

/-- Runs that see the same are in lockstep. -/
theorem Seeing.lockstep (below : ∀ ns, N (.write ns) → N (.read ns)) :
    LockstepWithin N s t (Seeing N s t scope a b) (Counterpart N s t scope)
      (fun i j => i = scope ∧ j = scope) where
  below := below
  faithful _ := Counterpart.faithful
  mono hw _ _ := Counterpart.mono hw
  fresh := by
    rintro w n params body held calls calls' i j hcalls ⟨rfl, rfl⟩ hcov huses
    exact .lambda n params body hcalls hcov huses
  lambda := by
    rintro w _ _ ⟨n, params, body, hcalls, hcov, huses⟩
    exact ⟨_, _, _, _, _, _, _, _, _, rfl, rfl, hcalls, ⟨rfl, rfl⟩, hcov, huses⟩
  counts h := h.counts
  known h := h.known
  inner := by
    intro w s' t' h w' s'' t'' hw hs _ ht _ hcounts hknown
    refine ⟨hcounts, hknown, fun ns hns => ?_, hs ▸ h.left, ht ▸ h.right⟩
    rw [Session.store, hs, Session.store, ht]
    refine (h.sees ns hns).mono fun data data' hdata => ?_
    cases hdata with
    | none => exact .none
    | some hv => exact .some (hv.mono fun _ _ => Counterpart.mono hw)
  reads := by
    rintro w s' t' h i j ⟨rfl, rfl⟩ ns hns
    exact h.sees ns hns
  writes := by
    rintro w s' t' h i j ⟨rfl, rfl⟩ ns hns keys v v' hv
    exact h.write (below ns hns) hns keys hv

/-! ### Scripts -/

/-- Two acts come to the same up to corresponding functions of runs begun in `s` and `t`, and write
to namespaces `N` only. -/
structure ComeAlike (N : String → Prop) (s t : Session) (scope : ScopeId) (x y : Act Value)
    (s' t' : Session) : Prop where
  outcome : SameOutcome (Twins s t scope) (x.runOn s').1 (y.runOn t').1
  left : Handle.WrittenIn N scope s'.handle (x.runOn s').2.handle
  right : Handle.WrittenIn N scope t'.handle (y.runOn t').2.handle

/-- The dependencies of a script suffice: in sessions without functions in their scopes, in which a
scope sees the same data under each of them, the script comes to the same, and then so does calling
any function that is found in what it came to with the same data. Nothing else is written. -/
def Script.DependenciesSuffice (script : Script) : Prop :=
  ∀ (scope : ScopeId) (s t : Session), s.store.Plain → t.store.Plain →
    (∀ ns ∈ script.dependencies, s.store.spaceData? scope ns = t.store.spaceData? scope ns) →
    ComeAlike (· ∈ script.dependencies) s t scope (script.run scope) (script.run scope) s t ∧
      ∀ v v', ((script.run scope).runOn s).1 = .ok v → ((script.run scope).runOn t).1 = .ok v' →
        ∀ keys f, v.at? keys = .ok (.function f) → ∃ f', v'.at? keys = .ok (.function f') ∧
          ∀ args, PlainItems args →
            ComeAlike (· ∈ script.dependencies) s t scope (f.call args) (f'.call args)
              ((script.run scope).runOn s).2 ((script.run scope).runOn t).2

/-- An expression comes to what is seen under the names it uses. -/
theorem Script.suffice_of_uses {script : Script}
    (huses : Confine (·.name ∈ script.dependencies) (script.expr.uses [])) :
    script.DependenciesSuffice := by
  intro scope s t hs _ hsame
  have below : ∀ ns, (Use.write ns).name ∈ script.dependencies →
      (Use.read ns).name ∈ script.dependencies := fun _ h => h
  obtain ⟨w, -, ho, hsee⟩ := script.run_within (Seeing.lockstep below) huses ⟨rfl, rfl⟩
    (fun _ _ => False) s t (.start hs hsame)
  refine ⟨⟨ho.mono fun _ _ => Alike.mono fun _ _ => Counterpart.twin, hsee.left, hsee.right⟩, ?_⟩
  intro v v' hv hv' keys f hf
  rw [hv, hv'] at ho
  -- where the one value holds a function, the other holds its counterpart
  have hat := Alike.at? keys ho
  rw [hf] at hat
  cases hf' : v'.at? keys with
  | error e => rw [hf'] at hat; exact hat.elim
  | ok u =>
    rw [hf'] at hat
    cases hat with
    | @function _ f' hff' =>
      refine ⟨f', rfl, fun args hargs => ?_⟩
      obtain ⟨w', -, ho', hsee'⟩ := Callable.call_lockstep (Seeing.lockstep below) w f f' args args hff'
        (AlikeItems.refl hargs) _ _ hsee.onward
      exact ⟨ho'.mono fun _ _ => Alike.mono fun _ _ => Counterpart.twin, hsee'.left, hsee'.right⟩

/-- **Dependencies** suffice for every source that compiles in which no default of a parameter binds
a name and nothing is assigned to below one of the names that every expression knows. -/
theorem Script.dependencies_suffice {source : String} {script : Script}
    (hcompile : Script.compile source = .ok script)
    (hdefaults : ∀ tree ∈ Script.Syntax.parse? source, ∀ d ∈ tree.defaults, d.BindsNothing)
    (hwrites : ∀ ns, .write ns ∈ script.expr.uses [] → globalValue? ns = none) :
    script.DependenciesSuffice := by
  unfold Script.compile at hcompile
  split at hcompile
  · cases hcompile
  next tree htree =>
  split at hcompile
  · next expr hlower =>
    cases hcompile
    exact suffice_of_uses (Script.uses_dependencies hlower (hdefaults tree htree) hwrites)
  · cases hcompile

theorem Session.beside_plain {other : Value} (h : other.Plain) :
    (Session.beside other).store.Plain := by
  refine List.forall_mem_cons.2 ⟨h, List.forall_mem_cons.2 ⟨⟨trivial, trivial⟩, ?_⟩⟩
  exact List.forall_mem_cons.2 ⟨h, List.forall_mem_singleton.2 trivial⟩

/-- Recognizes the tree of `x => c.k = x`, wherever its parts are in a source. -/
def Script.Syntax.isSetter : Script.Syntax → Bool
  | .arrow _ false [.name "x" none] none
      (.expression (.assign _ "=" (.member (.name "c") "k") (.name "x"))) => true
  | _ => false

theorem Script.Syntax.eq_of_isSetter {tree : Script.Syntax} (h : tree.isSetter) :
    ∃ span span', tree = .arrow span false [.name "x" none] none
      (.expression (.assign span' "=" (.member (.name "c") "k") (.name "x"))) := by
  unfold isSetter at h
  split at h
  · exact ⟨_, _, rfl⟩
  · cases h

/-- A function that assigns below a namespace does not tell what is beside it. -/
theorem Script.dependencies_suffice_setter :
    ∃ script, Script.compile "x => c.k = x" = .ok script ∧
      (∀ ns ∈ script.dependencies, (Session.beside .null).store.spaceData? 2 ns =
        (Session.beside (.string "secret")).store.spaceData? 2 ns) ∧
      ComeAlike (· ∈ script.dependencies) (.beside .null) (.beside (.string "secret")) 2
        (script.run 2) (script.run 2) (.beside .null) (.beside (.string "secret")) := by
  have htree : (Script.Syntax.parse? "x => c.k = x").any Script.Syntax.isSetter = true := by
    decide +kernel
  obtain ⟨tree, hparse, hsetter⟩ := (Option.any_eq_true _ _).1 htree
  obtain ⟨span, span', rfl⟩ := Script.Syntax.eq_of_isSetter hsetter
  have hcompile : Script.compile "x => c.k = x" = .ok ⟨"x => c.k = x",
      .lambda ["x"] (.expression (.assign .assign (.member (.name "c") (.static "k")) (.name "x"))),
      ["c"]⟩ := by
    rw [Script.compile, hparse]
    rfl
  have hdefaults : ∀ tree ∈ Script.Syntax.parse? "x => c.k = x", ∀ d ∈ tree.defaults,
      d.BindsNothing := by
    intro tree htree
    rw [hparse] at htree
    cases htree
    exact List.forall_mem_nil _
  have hwrites : ∀ ns, .write ns ∈ [Use.write "c"] → globalValue? ns = none := by
    intro ns hns
    cases List.mem_singleton.1 hns
    rfl
  have hsees : ∀ ns ∈ ["c"], (Session.beside .null).store.spaceData? 2 ns =
      (Session.beside (.string "secret")).store.spaceData? 2 ns := by
    intro ns hns
    cases List.mem_singleton.1 hns
    rfl
  have hnull : (Session.beside .null).store.Plain := Session.beside_plain trivial
  have hsecret : (Session.beside (.string "secret")).store.Plain := Session.beside_plain trivial
  exact ⟨_, hcompile, hsees, (Script.dependencies_suffice hcompile hdefaults hwrites 2 _ _
    hnull hsecret hsees).1⟩

/-- A session in which scope 1 is a namespace. -/
def Session.inside (ns : String) : Session where
  handle :=
    { Handle.new with
      store :=
        { frames := [(1, ⟨"/0:" ++ ns, some 0, .space ns, .empty, 0⟩), (0, .root)]
          addresses := [("", 0), ("/0:" ++ ns, 1)]
          nextId := 2
          epoch := 0 } }
  calls := #[]
  nextFunction := 0
  counted := 0
  visits := []

theorem Session.inside_plain (ns : String) : (Session.inside ns).store.Plain :=
  List.forall_mem_cons.2 ⟨trivial, List.forall_mem_singleton.2 trivial⟩

/-- Recognizes `a => x.y`, compiled without dependencies. -/
def Script.isGetter : Script → Bool
  | ⟨_, .lambda ["a"] (.expression (.member (.name "x") (.static "y"))), []⟩ => true
  | _ => false

theorem Script.eq_of_isGetter {script : Script} (h : script.isGetter) :
    ∃ source, script =
      ⟨source, .lambda ["a"] (.expression (.member (.name "x") (.static "y"))), []⟩ := by
  unfold isGetter at h
  split at h
  · exact ⟨_, rfl⟩
  · cases h

/-- **Dependencies** do not suffice for an assignment below a name that every expression knows,
which is stored in the namespace of that name, nor if a default of a parameter binds a name, which
means nothing in the body. -/
theorem Script.dependencies_insufficient :
    (∃ script, Script.compile "NaN.x = null" = .ok script ∧ ¬ script.DependenciesSuffice) ∧
      ∃ script, Script.compile "(a = function x() {}) => x.y" = .ok script ∧
        ¬ script.DependenciesSuffice := by
  constructor
  · refine ⟨⟨"NaN.x = null",
      .assign .assign (.member (.name "NaN") (.static "x")) (.literal .null), []⟩, rfl, fun h => ?_⟩
    -- it succeeds in the one session and fails in the other
    exact (h 1 (.inside "NaN") (.inside "n") (Session.inside_plain _) (Session.inside_plain _)
      (List.forall_mem_nil _)).1.outcome
  · have hgetter : (Script.compile "(a = function x() {}) => x.y").toOption.any
        Script.isGetter = true := by
      decide +kernel
    cases hcompile : Script.compile "(a = function x() {}) => x.y" with
    | error fault =>
      rw [hcompile] at hgetter
      cases hgetter
    | ok script =>
      rw [hcompile] at hgetter
      obtain ⟨source, rfl⟩ := Script.eq_of_isGetter hgetter
      refine ⟨_, rfl, fun h => ?_⟩
      -- the function is made in both sessions, and calling it fails in one of them
      obtain ⟨f', hf', hcalls⟩ := (h 1 (.inside "x") (.inside "n") (Session.inside_plain _)
        (Session.inside_plain _) (List.forall_mem_nil _)).2 _ _ rfl rfl [] _ rfl
      cases hf'
      exact (hcalls [] trivial).outcome

end Trellis
