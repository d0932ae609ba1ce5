import Trellis.Proofs.Acts
import Trellis.Rendered

/-!
# What evaluating may do

Evaluating an expression, calling a function and firing a listener reach the scopes through
`Handle.write` alone; besides they change parameters and counters. So they keep every relation
between sessions that allows that much (`AllowsEvaluation`).

* `Expr.eval_keeps`: expressions, given that calls do.
* `Callable.call_keeps`: calls, whatever is called.
* `Binding.resolve_keeps`, `Listener.fire_keeps`: bindings and listeners.
-/

namespace Trellis

open Act

/-! ### Reading -/

section Reading

variable {R : Session → Session → Prop} [Std.Refl R]

theorem Act.parameters_keeps (id : LocalId) : Keeps R (parameters id) :=
  fun s => Std.Refl.refl s

variable [IsTrans Session R]

theorem Act.holder?_keeps (name : String) : ∀ calls, Keeps R (holder? name calls)
  | [] => Keeps.pure _
  | id :: outer => by
    rw [holder?]
    refine Keeps.bind (parameters_keeps id) fun params => ?_
    split
    · exact Keeps.pure _
    · exact holder?_keeps name outer

theorem Place.lookup_keeps (p : Place) (name : String) : Keeps R (p.lookup name) := by
  unfold Place.lookup
  refine Keeps.bind (holder?_keeps name p.calls) fun held => ?_
  split
  · exact Keeps.pure _
  split
  · exact Keeps.pure _
  refine Keeps.bind (Keeps.scopes _) fun data => ?_
  split
  · exact Keeps.pure _
  · exact Keeps.throw _

theorem Place.member_keeps (p : Place) (root : String) (keys : List String) :
    Keeps R (p.member root keys) :=
  Keeps.bind (p.lookup_keeps root) fun _ => Keeps.ofExcept _

theorem parameterMember_keeps (id : LocalId) (root : String) (keys : List String) :
    Keeps R (parameterMember id root keys) :=
  Keeps.bind (parameters_keeps id) fun _ => Keeps.ofExcept _

end Reading

/-! ### Evaluating -/

/-- A preorder of sessions that holds between two if only parameters and counters differ, and if a
member of a namespace is written in between. -/
class AllowsEvaluation (R : Session → Session → Prop) : Prop extends IsTrans Session R where
  inner : ∀ s t, s.handle = t.handle → s.visits = t.visits → R s t
  write : ∀ s scope ns keys v handle, s.handle.write scope ns keys v = .ok handle →
    R s { s with handle := handle }

variable {R : Session → Session → Prop} [AllowsEvaluation R]

instance : Std.Refl R := ⟨fun s => AllowsEvaluation.inner s s rfl rfl⟩

/-- Reading a session and changing what is not of the scopes. -/
theorem Act.Keeps.modifyGet {α : Type} {f : Session → α × Session}
    (h : ∀ s, s.handle = (f s).2.handle ∧ s.visits = (f s).2.visits) :
    Keeps R (modifyGet f : Act α) :=
  fun s => AllowsEvaluation.inner s (f s).2 (h s).1 (h s).2

theorem Act.writing_keeps (scope : ScopeId) (ns : String) (keys : List String) (v : Value) :
    Keeps R (writing (·.write scope ns keys v)) :=
  Keeps.writing fun s handle h => AllowsEvaluation.write s scope ns keys v handle h

theorem AssignOp.combine_keeps {current right : Act Value} (hcur : Keeps R current)
    (hright : Keeps R right) (op : AssignOp) : Keeps R (op.combine current right) := by
  cases op with
  | assign => exact Keeps.bind hright fun _ => Keeps.pure _
  | arithmetic op => exact Keeps.bind hcur fun _ => Keeps.bind hright fun _ => Keeps.pure _
  | logical op =>
    refine Keeps.bind hcur fun v => ?_
    split
    · exact Keeps.pure _
    · exact Keeps.bind hright fun _ => Keeps.pure _

theorem storeParameter_keeps (id : LocalId) (root : String) (keys : List String) (v : Value) :
    Keeps R (storeParameter id root keys v) := by
  unfold storeParameter
  refine Keeps.bind (parameters_keeps id) fun params => ?_
  split
  · exact Keeps.pure _
  split
  · exact Keeps.modifyGet fun _ => ⟨rfl, rfl⟩
  · exact Keeps.throw _

theorem assignParameter_keeps (id : LocalId) (op : AssignOp) (root : String) (keys : List String)
    {right : Act Value} (hright : Keeps R right) :
    Keeps R (assignParameter id op root keys right) := by
  have hcur := parameterMember_keeps (R := R) id root keys
  unfold assignParameter
  refine Keeps.bind (op.combine_keeps hcur hright) fun stored => ?_
  split
  · exact hcur
  · exact Keeps.bind (storeParameter_keeps id root keys _) fun _ => Keeps.pure _

theorem Place.store_keeps (p : Place) (root : String) (keys : List String) (v : Value) :
    Keeps R (p.store root keys v) := by
  unfold Place.store
  refine Keeps.bind (Keeps.scopes _) fun data => ?_
  split
  · exact Keeps.throw _
  · exact writing_keeps p.scope root keys v

theorem Place.refuse_keeps (p : Place) (root : String) : Keeps R (p.refuse root) := by
  unfold Place.refuse
  refine Keeps.bind (Keeps.scopes _) fun data => ?_
  split
  · exact Keeps.throw _
  · exact Keeps.throw _

theorem assignSpace_keeps (p : Place) (op : AssignOp) (root : String) (keys : List String)
    {right : Act Value} (hright : Keeps R right) :
    Keeps R (assignSpace p op root keys right) := by
  unfold assignSpace
  split
  · exact p.refuse_keeps root
  refine Keeps.bind (op.combine_keeps (p.member_keeps root keys) hright) fun stored => ?_
  split
  · exact p.member_keeps root keys
  · exact Keeps.bind (p.store_keeps root keys _) fun _ => Keeps.pure _

theorem assignTo_keeps (p : Place) (op : AssignOp) (root : String) (keys : List String)
    {right : Act Value} (hright : Keeps R right) : Keeps R (assignTo p op root keys right) := by
  unfold assignTo
  refine Keeps.bind (holder?_keeps root p.calls) fun held => ?_
  split
  · exact assignParameter_keeps _ op root keys hright
  · exact assignSpace_keeps p op root keys hright

theorem Place.closure_keeps (p : Place) (params : List String) (body : Body) :
    Keeps R (p.closure params body) :=
  Keeps.bind (Keeps.modifyGet fun _ => ⟨rfl, rfl⟩) fun _ => Keeps.pure _

theorem callValue_keeps {call : Callable → List Value → Act Value}
    (hc : ∀ f args, Keeps R (call f args)) (label : String) (args : List Value) (v : Value) :
    Keeps R (callValue call label args v) := by
  cases v
  case function f => exact hc f args
  all_goals exact Keeps.throw _

section Expressions

set_option linter.unusedSectionVars false

variable {call : Callable → List Value → Act Value} (hc : ∀ f args, Keeps R (call f args))
  (p : Place)

include hc

mutual

/-- **Expressions** write members of namespaces and change nothing else of the scopes. -/
theorem Expr.eval_keeps : ∀ e : Expr, Keeps R (e.eval call p)
  | .literal v => by rw [Expr.eval]; exact Keeps.pure _
  | .name id => by rw [Expr.eval]; exact p.lookup_keeps id
  | .template head parts => by
    rw [Expr.eval]; exact Keeps.bind (evalParts_keeps parts) fun _ => Keeps.pure _
  | .member object property => by
    rw [Expr.eval]
    exact Keeps.bind object.eval_keeps fun _ =>
      Keeps.bind property.eval_keeps fun _ => Keeps.ofExcept _
  | .array items => by
    rw [Expr.eval]; exact Keeps.bind (evalItems_keeps items) fun _ => Keeps.pure _
  | .object entries => by
    rw [Expr.eval]; exact Keeps.bind (evalEntries_keeps entries) fun _ => Keeps.pure _
  | .unary op argument => by
    rw [Expr.eval]; exact Keeps.bind argument.eval_keeps fun _ => Keeps.pure _
  | .binary op left right => by
    rw [Expr.eval]
    exact Keeps.bind left.eval_keeps fun _ => Keeps.bind right.eval_keeps fun _ => Keeps.pure _
  | .logical op left right => by
    rw [Expr.eval]
    refine Keeps.bind left.eval_keeps fun v => ?_
    split
    · exact Keeps.pure _
    · exact right.eval_keeps
  | .conditional test yes no => by
    rw [Expr.eval]
    refine Keeps.bind test.eval_keeps fun v => ?_
    split
    · exact yes.eval_keeps
    · exact no.eval_keeps
  | .assign op target value => by
    rw [Expr.eval]
    exact Keeps.bind target.eval_keeps fun t => assignTo_keeps p op t.1 t.2 value.eval_keeps
  | .call callee arguments => by
    rw [Expr.eval]
    exact Keeps.bind callee.eval_keeps fun v =>
      Keeps.bind (evalItems_keeps arguments) fun args => callValue_keeps hc callee.label args v
  | .lambda params body => by rw [Expr.eval]; exact p.closure_keeps params body
  | .sequence items => by
    rw [Expr.eval]; exact Keeps.bind (evalItems_keeps items) fun _ => Keeps.pure _

theorem Property.eval_keeps : ∀ property : Property, Keeps R (property.eval call p)
  | .static name => by rw [Property.eval]; exact Keeps.pure _
  | .computed key => by
    rw [Property.eval]; exact Keeps.bind key.eval_keeps fun _ => Keeps.ofExcept _

theorem Target.eval_keeps : ∀ target : Target, Keeps R (target.eval call p)
  | .name id => by rw [Target.eval]; exact Keeps.pure _
  | .member object property => by
    rw [Target.eval]
    exact Keeps.bind object.evalChain_keeps fun _ =>
      Keeps.bind property.eval_keeps fun _ => Keeps.pure _

theorem Expr.evalChain_keeps : ∀ e : Expr, Keeps R (e.evalChain call p)
  | .name id => by rw [Expr.evalChain]; exact Keeps.pure _
  | .member object property => by
    rw [Expr.evalChain]
    exact Keeps.bind object.evalChain_keeps fun _ =>
      Keeps.bind property.eval_keeps fun _ => Keeps.pure _
  | .literal _ | .template _ _ | .array _ | .object _ | .unary _ _ | .binary _ _ _
  | .logical _ _ _ | .conditional _ _ _ | .assign _ _ _ | .call _ _ | .lambda _ _
  | .sequence _ => by
    rw [Expr.evalChain]
    · exact Keeps.throw _
    all_goals simp

theorem evalParts_keeps : ∀ parts, Keeps R (evalParts call p parts)
  | [] => by rw [evalParts]; exact Keeps.pure _
  | (e, tail) :: rest => by
    rw [evalParts]
    exact Keeps.bind e.eval_keeps fun _ => Keeps.bind (evalParts_keeps rest) fun _ => Keeps.pure _

theorem evalItems_keeps : ∀ items, Keeps R (evalItems call p items)
  | [] => by rw [evalItems]; exact Keeps.pure _
  | e :: rest => by
    rw [evalItems]
    exact Keeps.bind e.eval_keeps fun _ => Keeps.bind (evalItems_keeps rest) fun _ => Keeps.pure _

theorem evalEntries_keeps : ∀ entries, Keeps R (evalEntries call p entries)
  | [] => by rw [evalEntries]; exact Keeps.pure _
  | (key, e) :: rest => by
    rw [evalEntries]
    exact Keeps.bind e.eval_keeps fun _ =>
      Keeps.bind (evalEntries_keeps rest) fun _ => Keeps.pure _

end

mutual

theorem Stmt.exec_keeps : ∀ stmt : Stmt, Keeps R (stmt.exec call p)
  | .expression e => by
    rw [Stmt.exec]; exact Keeps.bind (e.eval_keeps hc p) fun _ => Keeps.pure _
  | .result none => by rw [Stmt.exec]; exact Keeps.pure _
  | .result (some e) => by
    rw [Stmt.exec]; exact Keeps.bind (e.eval_keeps hc p) fun _ => Keeps.pure _
  | .branch test yes no => by
    rw [Stmt.exec]
    refine Keeps.bind (test.eval_keeps hc p) fun v => ?_
    split
    · exact execAll_keeps yes
    · exact execAll_keeps no
  | .block statements => by rw [Stmt.exec]; exact execAll_keeps statements

theorem execAll_keeps : ∀ stmts, Keeps R (execAll call p stmts)
  | [] => by rw [execAll]; exact Keeps.pure _
  | stmt :: rest => by
    rw [execAll]
    refine Keeps.bind stmt.exec_keeps fun returned => ?_
    split
    · exact Keeps.pure _
    · exact execAll_keeps rest

end

theorem Body.run_keeps (body : Body) : Keeps R (body.run call p) := by
  cases body with
  | expression e => exact e.eval_keeps hc p
  | block statements => exact Keeps.bind (execAll_keeps hc p statements) fun _ => Keeps.pure _

theorem invoke_keeps (params : List String) (body : Body) (calls : List LocalId) (scope : ScopeId)
    (args : List Value) : Keeps R (invoke call params body calls scope args) :=
  Keeps.bind (Keeps.modifyGet fun _ => ⟨rfl, rfl⟩) fun id => body.run_keeps hc ⟨scope, id :: calls⟩

theorem callHost_keeps (name : String) (args : List Value) : Keeps R (callHost call name args) := by
  unfold callHost
  split
  · exact Keeps.pure _
  · exact Keeps.pure _
  · exact Keeps.bind (Keeps.modifyGet fun _ => ⟨rfl, rfl⟩) fun _ => Keeps.pure _
  · exact callValue_keeps hc "apply" args.tail (args.headD .null)
  · exact Keeps.throw _

end Expressions

theorem Callable.callWithin_keeps (depth : Nat) :
    ∀ f args, Keeps R (callWithin depth f args) := by
  -- what a function calls is called one level deeper
  induction depth with
  | zero => intro f args; exact Keeps.throw _
  | succ depth ih =>
    intro f args
    cases f with
    | host id name => exact callHost_keeps ih name args
    | lambda id params body calls scope => exact invoke_keeps ih params body calls scope args

/-- **Calls** write members of namespaces and change nothing else of the scopes. -/
theorem Callable.call_keeps (f : Callable) (args : List Value) : Keeps R (f.call args) :=
  callWithin_keeps depthLimit f args

theorem Script.run_keeps (script : Script) (scope : ScopeId) : Keeps R (script.run scope) :=
  script.expr.eval_keeps Callable.call_keeps ⟨scope, []⟩

/-- **Bindings**, with expressions switched on or off. -/
theorem Binding.resolve_keeps (config : Config) (scope : ScopeId) (b : Binding) :
    Keeps R (b.resolve config scope) := by
  cases b with
  | literal v => exact Keeps.pure _
  | path p => exact Keeps.scopes _
  | expression raw =>
    simp only [Binding.resolve]
    split
    · exact Keeps.bind (Keeps.ofExcept _) fun script : Script => script.run_keeps scope
    · exact Keeps.pure _

/-- With expressions switched off bindings change nothing. -/
theorem Binding.resolve_runOn {config : Config} (hoff : config.expressions = false) {s : Session}
    (scope : ScopeId) (b : Binding) : ((b.resolve config scope).runOn s).2 = s := by
  cases b with
  | literal v => rfl
  | path p => exact congrArg Prod.snd (runOn_scopes _ s)
  | expression raw =>
    unfold resolve
    simp only [hoff, Bool.false_eq_true, if_false]
    rfl

/-- **Listeners**, whatever they do. -/
theorem Listener.fire_keeps (config : Config) (l : Listener) (args : List Value) :
    Keeps R (l.fire config args) := by
  unfold Listener.fire
  split
  · exact Callable.call_keeps _ args
  · refine Keeps.bind (Binding.resolve_keeps config l.scope _) fun v => ?_
    unfold Listener.deliver
    split
    · exact Callable.call_keeps _ args
    · exact Keeps.pure _
    · exact Keeps.throw _
    · exact Keeps.throw _

theorem Rendered.fireAll_keeps (config : Config) (args : List Value) :
    ∀ ls v, Keeps R (fireAll config args v ls)
  | [], v => Keeps.pure v
  | l :: rest, _ => Keeps.bind (l.fire_keeps config args) fun w => fireAll_keeps config args rest w

end Trellis
