import Trellis.Proofs.Script.Dependencies

/-!
# Parameters are private

What is passed to a function is its own. A script writes to a namespace only where it assigns below
the name of the namespace and no arrow around the assignment has a parameter of that name; so it is
however often the functions it came to are called afterwards, and those that the calls came to. A
function may be handed to others, kept in a parameter and called from anywhere: the parameters below
which it assigns are those of the calls it was made in, and their values are no part of any store.

* `Expr.Assigns`: the names below which an expression assigns and that no parameter has.
* `Script.Aftermath`: a script is run, and then functions it came to are called.
* `Script.Contained`: what is kept along an aftermath, `Script.Aftermath.contained`.
* `Script.aftermath_writtenIn`: what is written in an aftermath.
* `Script.parameters_private`: nothing is, if all that is assigned to are parameters.
-/

namespace Trellis

open Value Act

/-- The expression assigns to a target whose root is the name, where no arrow around the assignment
has a parameter of that name. -/
def Expr.Assigns (e : Expr) (ns : String) : Prop :=
  .write ns ∈ e.uses []

/-- Any reading, and writing where the expression assigns. -/
def Expr.Admits (e : Expr) : Use → Prop
  | .read _ => True
  | .write ns => e.Assigns ns

theorem Expr.confine_admits (e : Expr) : Confine e.Admits (e.uses []) := by
  intro u hu
  cases u with
  | read id => exact .inr trivial
  | write id => exact hu

theorem Expr.admits_below (e : Expr) (ns : String) (_ : e.Admits (.write ns)) :
    e.Admits (.read ns) :=
  trivial

/-- A script is run in a session, and then functions are called with data, each found somewhere in
what the script or a call before came to. The values are those that were come to, in order. -/
inductive Script.Aftermath (script : Script) (scope : ScopeId) (s : Session) :
    List Value → Session → Prop
  | run : Aftermath script scope s ((script.run scope).runOn s).1.toOption.toList
      ((script.run scope).runOn s).2
  | call {values : List Value} {t : Session} (before : Aftermath script scope s values t)
    {v : Value} (hv : v ∈ values) {keys : List String} {f : Callable}
    (hf : v.at? keys = .ok (.function f)) {args : List Value} (hargs : PlainItems args) :
    Aftermath script scope s (values ++ ((f.call args).runOn t).1.toOption.toList)
      ((f.call args).runOn t).2

variable {script : Script} {scope : ScopeId} {s t : Session} {values : List Value}

/-- All functions in the values assign where the script does and below parameters of the calls they
were made in, and nothing else was assigned to on the way from `s` to `t`. -/
def Script.Contained (script : Script) (scope : ScopeId) (s : Session) (values : List Value)
    (t : Session) : Prop :=
  ∃ w : Holding, Seeing script.expr.Admits s s scope s.handle s.handle w t t ∧
    ∀ v ∈ values, Alike (Counterpart script.expr.Admits s s scope w) v v

/-- What an act comes to, if it comes to anything, is related to itself. -/
theorem SameOutcome.toList {R : Value → Value → Prop} {x : Except Fault Value}
    (h : SameOutcome R x x) : ∀ v ∈ x.toOption.toList, R v v := by
  cases x with
  | error e => exact List.forall_mem_nil _
  | ok v => exact List.forall_mem_singleton.2 h

theorem Script.Contained.run (hs : s.store.Plain) :
    script.Contained scope s ((script.run scope).runOn s).1.toOption.toList
      ((script.run scope).runOn s).2 := by
  -- the run is compared with itself
  obtain ⟨w, -, ho, hsee⟩ := script.run_within (Seeing.lockstep script.expr.admits_below)
    script.expr.confine_admits ⟨rfl, rfl⟩ (fun _ _ => False) s s (.start hs fun _ _ => rfl)
  exact ⟨w, hsee, ho.toList⟩

theorem Script.Contained.call (h : script.Contained scope s values t) {v : Value} (hv : v ∈ values)
    {keys : List String} {f : Callable} (hf : v.at? keys = .ok (.function f)) {args : List Value}
    (hargs : PlainItems args) :
    script.Contained scope s (values ++ ((f.call args).runOn t).1.toOption.toList)
      ((f.call args).runOn t).2 := by
  obtain ⟨w, hsee, hvalues⟩ := h
  have hat := Alike.at? keys (hvalues v hv)
  rw [hf] at hat
  cases hat with
  | function hff =>
    obtain ⟨w', hw, ho, hsee'⟩ := Callable.call_lockstep (Seeing.lockstep script.expr.admits_below)
      w f f args args hff (AlikeItems.refl hargs) t t hsee
    refine ⟨w', hsee', List.forall_mem_append.2 ⟨fun u hu => ?_, ho.toList⟩⟩
    exact (hvalues u hu).mono fun _ _ => Counterpart.mono hw

theorem Script.Aftermath.contained (hs : s.store.Plain) (h : script.Aftermath scope s values t) :
    script.Contained scope s values t := by
  induction h with
  | run => exact .run hs
  | call _ hv hf hargs ih => exact ih.call hv hf hargs

/-- **What a script writes**, with all calls of what it comes to: the namespaces below whose names it
assigns where they are no parameters. -/
theorem Script.aftermath_writtenIn (hs : s.store.Plain) (h : script.Aftermath scope s values t) :
    Handle.WrittenIn script.expr.Assigns scope s.handle t.handle := by
  obtain ⟨w, hsee, -⟩ := h.contained hs
  exact hsee.left

/-- **Parameters are private.** If the root of all targets to which a script assigns is a parameter
of an arrow around the assignment, then running it where the store holds no functions and calling the
functions it comes to with data, any number of times, leaves the store as it was, and its revision
and what was told of changes. -/
theorem Script.parameters_private (hroots : ∀ ns, ¬ script.expr.Assigns ns) (hs : s.store.Plain)
    (h : script.Aftermath scope s values t) : t.handle = s.handle := by
  have hwritten := Script.aftermath_writtenIn hs h
  cases hwritten.cases_head with
  | inl heq => exact heq.symm
  | inr hstep =>
    obtain ⟨_, ⟨ns, _, _, hns, _⟩, _⟩ := hstep
    exact (hroots ns hns).elim

/-- `x => (a.j = x, a)`. -/
def Body.keeping : Body :=
  .expression (.sequence
    [.assign .assign (.member (.name "a") (.static "j")) (.name "x"), .name "a"])

/-- `(a => (a.k = null, x => (a.j = x, a)))(c)`. -/
def Script.keeper : Script where
  source := "(a => (a.k = null, x => (a.j = x, a)))(c)"
  expr := .call
    (.lambda ["a"] (.expression (.sequence
      [.assign .assign (.member (.name "a") (.static "k")) (.literal .null),
        .lambda ["x"] .keeping])))
    [.name "c"]
  dependencies := ["c"]

/-- The data of a namespace is changed twice below a parameter, by the script and by the function
that it comes to, which gives back what has become of it. The store is as it was. -/
theorem Script.parameters_private_keeper :
    (∀ ns, ¬ Script.keeper.expr.Assigns ns) ∧ (Session.beside .null).store.Plain ∧
      ∃ t, Script.keeper.Aftermath 2 (.beside .null)
          [.function (.lambda 1 ["x"] .keeping [0] 2),
            .object [("k", .null), ("j", .string "new")]] t ∧
        t.handle = (Session.beside .null).handle := by
  have hroots : ∀ ns, ¬ Script.keeper.expr.Assigns ns := by
    intro ns hns
    have huses : Script.keeper.expr.uses [] = [.read "c"] := rfl
    rw [Expr.Assigns, huses] at hns
    cases List.mem_singleton.1 hns
  have hplain : (Session.beside .null).store.Plain := Session.beside_plain trivial
  have hran : Script.keeper.Aftermath 2 (.beside .null) [.function (.lambda 1 ["x"] .keeping [0] 2)]
      ((Script.keeper.run 2).runOn (.beside .null)).2 := .run
  have hargs : PlainItems [.string "new"] := ⟨trivial, trivial⟩
  have hf : (Value.function (.lambda 1 ["x"] .keeping [0] 2)).at? [] =
      .ok (.function (.lambda 1 ["x"] .keeping [0] 2)) := rfl
  have hcalled := hran.call (List.mem_singleton_self _) hf hargs
  exact ⟨hroots, hplain, _, hcalled, Script.parameters_private hroots hplain hcalled⟩

end Trellis
