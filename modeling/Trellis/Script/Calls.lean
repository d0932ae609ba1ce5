import Trellis.Script
import Trellis.Script.Evaluation

/-!
# Calls

What calling a function does. A lambda runs its body where it was made, with its parameters in a
call of its own: what is missing is null, what is too much is dropped. The host's functions are
known by their names.

* `Callable.callWithin`: a call that may nest calls up to a depth. The depth is the only limit
  there is to running an expression.
* `Script.run`: the value of a script in a scope.
-/

namespace Trellis

/-- The parameters of a call: each name with the argument in its place. -/
def bindParameters (params : List String) (args : List Value) : Members Value :=
  Members.ofList (params.mapIdx fun i name => (name, args[i]?.getD .null))

/-- Runs the body of a lambda on arguments. -/
def invoke (call : Callable → List Value → Act Value) (params : List String) (body : Body)
    (calls : List LocalId) (scope : ScopeId) (args : List Value) : Act Value := do
  let id ← Act.enterCall (bindParameters params args)
  body.run call ⟨scope, id :: calls⟩

/-- What the host's functions do: give back their arguments, give back the first one, count their
calls, call another function. One the host does not know fails. -/
def callHost (call : Callable → List Value → Act Value) (name : String) (args : List Value) :
    Act Value :=
  match name with
  | "args" => return .array args
  | "first" => return args.headD .null
  | "count" => return .ofNat (← Act.count)
  | "apply" => callValue call "apply" args.tail (args.headD .null)
  | _ => throw (.wrongType "host failure")

namespace Callable

/-- How deep calls may be nested. -/
def depthLimit : Nat := 10000

/-- Calls a function, calls inside it being nested at most `depth` deep. -/
def callWithin : Nat → Callable → List Value → Act Value
  | 0, _, _ => throw .callsTooDeep
  | depth + 1, host _ name, args => callHost (callWithin depth) name args
  | depth + 1, lambda _ params body calls scope, args =>
    invoke (callWithin depth) params body calls scope args

/-- Calls a function. -/
def call (f : Callable) (args : List Value) : Act Value :=
  callWithin depthLimit f args

end Callable

/-- The value of a script in a scope. -/
def Script.run (s : Script) (scope : ScopeId) : Act Value :=
  s.expr.eval Callable.call ⟨scope, []⟩

end Trellis
