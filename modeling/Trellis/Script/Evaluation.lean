import Trellis.Script.Names
import Trellis.Session
import Trellis.Value.Operators

/-!
# Evaluation

The value of an expression in a place: a scope and the calls whose parameters are in sight. Names
are parameters first, then the few names that always mean the same, then the namespaces around the
scope, nearest first; nothing else can be read or written.

* `Expr.eval`: operands are evaluated from left to right, and what was done before a fault stays
  done. How a function is called is a parameter here, so the recursion follows the expression.
* `assignTo`: an assignment reads its target, evaluates its right side, and then stores. A compound
  one whose left side settles the outcome stores nothing.
-/

namespace Trellis

/-- Where an expression is evaluated: a scope, and the calls around it, innermost first. -/
structure Place where
  scope : ScopeId
  calls : List LocalId

/-- The value of a name. -/
def Place.lookup (p : Place) (name : String) : Act Value := do
  match ← Act.holder? name p.calls with
  | some (_, v) => return v
  | none =>
    match globalValue? name with
    | some v => return v
    | none =>
      match ← Act.scopes (·.spaceData? p.scope name) with
      | some data => return data
      | none => throw (.undefinedName name)

/-- What an assignment stores, given how to read its target and how to evaluate its right side.
Nothing if the target's value settles the outcome. -/
def AssignOp.combine (current right : Act Value) : AssignOp → Act (Option Value)
  | assign => do
    return some (← right)
  | arithmetic op => do
    let v ← current
    let w ← right
    return some (op.apply v w)
  | logical op => do
    let v ← current
    if op.keeps v then return none
    return some (← right)

/-- The fault of storing below a parameter where there is no place. -/
def parameterFault : Misplaced → Fault
  | .absent key =>
    .wrongType ("cannot set properties of undefined (setting '" ++ key ++ "')")
  | .outside index => .wrongType ("index " ++ index ++ " is out of bounds")
  | .noContainer key kind => .wrongType ("cannot set member `" ++ key ++ "` on " ++ kind)

/-- Stores below a parameter. -/
def storeParameter (id : LocalId) (root : String) (keys : List String) (v : Value) : Act Unit := do
  match Members.get? (← Act.parameters id) root with
  | none => return
  | some old =>
    match old.store keys v with
    | .ok new => Act.setParameter id root new
    | .error e => throw (parameterFault e)

/-- What lies below a parameter. -/
def parameterMember (id : LocalId) (root : String) (keys : List String) : Act Value := do
  let v := (Members.get? (← Act.parameters id) root).getD .null
  Act.ofExcept (v.readAll keys)

/-- Assigns below a parameter. -/
def assignParameter (id : LocalId) (op : AssignOp) (root : String) (keys : List String)
    (right : Act Value) : Act Value := do
  match ← op.combine (parameterMember id root keys) right with
  | none => parameterMember id root keys
  | some v =>
    storeParameter id root keys v
    return v

/-- What lies below a name. -/
def Place.member (p : Place) (root : String) (keys : List String) : Act Value := do
  Act.ofExcept ((← p.lookup root).readAll keys)

/-- Stores below a namespace. -/
def Place.store (p : Place) (root : String) (keys : List String) (v : Value) : Act Unit := do
  match ← Act.scopes (·.spaceData? p.scope root) with
  | none => throw (.undefinedName root)
  | some _ => Act.writing (·.write p.scope root keys v)

/-- The fault of assigning to a namespace itself, or to a name that is nothing. -/
def Place.refuse (p : Place) (root : String) : Act Value := do
  match ← Act.scopes (·.spaceData? p.scope root) with
  | some _ => throw (.wrongType ("cannot reassign namespace `" ++ root ++ "`"))
  | none => throw (.undefinedName root)

/-- Assigns below a namespace. The namespace itself is not assigned to. -/
def assignSpace (p : Place) (op : AssignOp) (root : String) (keys : List String)
    (right : Act Value) : Act Value :=
  if keys.isEmpty then p.refuse root
  else do
    match ← op.combine (p.member root keys) right with
    | none => p.member root keys
    | some v =>
      p.store root keys v
      return v

/-- Assigns to a name or to a member below it. -/
def assignTo (p : Place) (op : AssignOp) (root : String) (keys : List String)
    (right : Act Value) : Act Value := do
  match ← Act.holder? root p.calls with
  | some (id, _) => assignParameter id op root keys right
  | none => assignSpace p op root keys right

/-- A function of the place. -/
def Place.closure (p : Place) (params : List String) (body : Body) : Act Value := do
  return .function (.lambda (← Act.freshFunction) params body p.calls p.scope)

/-- Calls a value, which goes by `label` in the fault if it is no function. -/
def callValue (call : Callable → List Value → Act Value) (label : String) (args : List Value) :
    Value → Act Value
  | .function f => call f args
  | _ => throw (.notCallable label)

mutual

/-- The value of an expression. -/
def Expr.eval (call : Callable → List Value → Act Value) (p : Place) : Expr → Act Value
  | .literal value => return .ofLiteral value
  | .name id => p.lookup id
  | .template head parts => do
    return .string (head ++ (← evalParts call p parts))
  | .member object property => do
    let v ← object.eval call p
    let key ← property.eval call p
    Act.ofExcept (v.read key)
  | .array items => do
    return .array (← evalItems call p items)
  | .object entries => do
    return .object (Members.ofList (← evalEntries call p entries))
  | .unary op argument => do
    return op.apply (← argument.eval call p)
  | .binary op left right => do
    let v ← left.eval call p
    let w ← right.eval call p
    return op.apply v w
  | .logical op left right => do
    let v ← left.eval call p
    if op.keeps v then return v
    right.eval call p
  | .conditional test yes no => do
    if (← test.eval call p).truthy then yes.eval call p else no.eval call p
  | .assign op target value => do
    let (root, keys) ← target.eval call p
    assignTo p op root keys (value.eval call p)
  | .call callee arguments => do
    let f ← callee.eval call p
    let args ← evalItems call p arguments
    callValue call callee.label args f
  | .lambda params body => p.closure params body
  | .sequence items => do
    return (← evalItems call p items).getLastD .null

/-- The name of a member. -/
def Property.eval (call : Callable → List Value → Act Value) (p : Place) : Property → Act String
  | .static name => return name
  | .computed key => do
    Act.ofExcept (← key.eval call p).asKey

/-- What an assignment stores to: a name and the members below it. -/
def Target.eval (call : Callable → List Value → Act Value) (p : Place) :
    Target → Act (String × List String)
  | .name id => return (id, [])
  | .member object property => do
    let (root, keys) ← object.evalChain call p
    return (root, keys ++ [← property.eval call p])

/-- A chain of members as the name it begins with and the members below it. -/
def Expr.evalChain (call : Callable → List Value → Act Value) (p : Place) :
    Expr → Act (String × List String)
  | .name id => return (id, [])
  | .member object property => do
    let (root, keys) ← object.evalChain call p
    return (root, keys ++ [← property.eval call p])
  | e => throw (.unsupported ("assignment to " ++ e.label))

/-- The text of the parts of a template. -/
def evalParts (call : Callable → List Value → Act Value) (p : Place) :
    List (Expr × String) → Act String
  | [] => return ""
  | (e, tail) :: rest => do
    let v ← e.eval call p
    return v.joined ++ tail ++ (← evalParts call p rest)

/-- The values of expressions in order. -/
def evalItems (call : Callable → List Value → Act Value) (p : Place) :
    List Expr → Act (List Value)
  | [] => return []
  | e :: rest => do
    let v ← e.eval call p
    return v :: (← evalItems call p rest)

/-- The members of an object in the order in which they are written. -/
def evalEntries (call : Callable → List Value → Act Value) (p : Place) :
    List (String × Expr) → Act (List (String × Value))
  | [] => return []
  | (key, e) :: rest => do
    let v ← e.eval call p
    return (key, v) :: (← evalEntries call p rest)

end

mutual

/-- Carries out a statement, and gives the value it returns, if it returns. -/
def Stmt.exec (call : Callable → List Value → Act Value) (p : Place) : Stmt → Act (Option Value)
  | .expression e => do
    let _ ← e.eval call p
    return none
  | .result none => return some .null
  | .result (some e) => do
    return some (← e.eval call p)
  | .branch test yes no => do
    if (← test.eval call p).truthy then execAll call p yes else execAll call p no
  | .block statements => execAll call p statements

/-- Carries out statements until one returns. -/
def execAll (call : Callable → List Value → Act Value) (p : Place) :
    List Stmt → Act (Option Value)
  | [] => return none
  | s :: rest => do
    match ← s.exec call p with
    | some v => return some v
    | none => execAll call p rest

end

/-- The value a call of the body gives. -/
def Body.run (call : Callable → List Value → Act Value) (p : Place) : Body → Act Value
  | .expression e => e.eval call p
  | .block statements => do
    return (← execAll call p statements).getD .null

end Trellis
