import Trellis.Fault
import Trellis.Script.Statements

/-!
# From syntax to expressions

A syntax tree becomes an expression if every form in it is one of ours. Nothing is dropped but
parentheses, empty statements and the defaults of parameters; the first form that is not ours, in
the order in which the forms are looked at, is the fault, quoted as it stands in the source.

* `Syntax.lower`: the expression a tree stands for, or the place of the form that has none.
-/

namespace Trellis.Script

/-- The operator of one operand a text spells. -/
def unaryOp? (op : String) : Option UnaryOp :=
  match op with
  | "!" => some .not
  | "-" => some .negate
  | "+" => some .plus
  | "typeof" => some .typeof
  | _ => none

/-- The operator of two operands a text spells. -/
def binaryOp? (op : String) : Option BinaryOp :=
  match op with
  | "+" => some (.arithmetic .add)
  | "-" => some (.arithmetic .sub)
  | "*" => some (.arithmetic .mul)
  | "/" => some (.arithmetic .div)
  | "%" => some (.arithmetic .rem)
  | "==" => some (.comparison .eq)
  | "!=" => some (.comparison .notEq)
  | "===" => some (.comparison .strictEq)
  | "!==" => some (.comparison .strictNotEq)
  | "<" => some (.comparison .lt)
  | "<=" => some (.comparison .le)
  | ">" => some (.comparison .gt)
  | ">=" => some (.comparison .ge)
  | _ => none

/-- The assignment a text spells. -/
def assignOp? (op : String) : Option AssignOp :=
  match op with
  | "=" => some .assign
  | "+=" => some (.arithmetic .add)
  | "-=" => some (.arithmetic .sub)
  | "*=" => some (.arithmetic .mul)
  | "/=" => some (.arithmetic .div)
  | "%=" => some (.arithmetic .rem)
  | "&&=" => some (.logical .and)
  | "||=" => some (.logical .or)
  | "??=" => some (.logical .coalesce)
  | _ => none

/-- The names of parameters, or the place of the first that is a pattern. -/
def lowerParams : List Param → Except Span (List String)
  | [] => .ok []
  | .name id _ :: rest => do return id :: (← lowerParams rest)
  | .pattern span _ :: _ => .error span

mutual

/-- The expression a tree stands for, or the place of the first form that has none. -/
def Syntax.lower : Syntax → Except Span Expr
  | .literal value => .ok (.literal value)
  | .name id => .ok (.name id)
  | .template head parts => do return .template head (← lowerParts parts)
  | .member object key => do return .member (← object.lower) (.static key)
  | .index object key => do
    let object ← object.lower
    return .member object (.computed (← key.lower))
  | .array items => do return .array (← lowerAll items)
  | .object entries => do return .object (← lowerEntries entries)
  | .unary span op argument =>
    match unaryOp? op with
    | some op => do return .unary op (← argument.lower)
    | none => .error span
  | .binary span op left right =>
    match binaryOp? op with
    | some op => do
      let left ← left.lower
      return .binary op left (← right.lower)
    | none => .error span
  | .logical op left right => do
    let left ← left.lower
    return .logical op left (← right.lower)
  | .conditional test yes no => do
    let test ← test.lower
    let yes ← yes.lower
    return .conditional test yes (← no.lower)
  | .assign span op target value =>
    match assignOp? op with
    | some op => do
      let target ← target.lower
      return .assign op target (← value.lower)
    | none => .error span
  | .call callee arguments => do
    let arguments ← lowerAll arguments
    return .call (← callee.lower) arguments
  | .arrow span isAsync params rest body =>
    if isAsync || rest.isSome then .error span
    else do
      let params ← lowerParams params
      return .lambda params (← body.lower)
  | .paren inner => inner.lower
  | .sequence items => do return .sequence (← lowerAll items)
  | .spread span _ _ => .error span
  | .hole span => .error span
  | .foreign span _ => .error span

/-- The expressions and texts of a template. -/
def lowerParts : List (Syntax × String) → Except Span (List (Expr × String))
  | [] => .ok []
  | (e, text) :: rest => do
    let e ← e.lower
    return (e, text) :: (← lowerParts rest)

/-- Expressions in order. -/
def lowerAll : List Syntax → Except Span (List Expr)
  | [] => .ok []
  | e :: rest => do
    let e ← e.lower
    return e :: (← lowerAll rest)

/-- The members of an object in order. -/
def lowerEntries : List Entry → Except Span (List (String × Expr))
  | [] => .ok []
  | .keyed key value :: rest => do
    let value ← value.lower
    return (key, value) :: (← lowerEntries rest)
  | .defaulted span _ _ :: _ => .error span
  | .foreign span _ :: _ => .error span

/-- What is assigned to. -/
def Place.lower : Place → Except Span Target
  | .name id => .ok (.name id)
  | .member object key => do return .member (← object.lower) (.static key)
  | .index object key => do
    let object ← object.lower
    return .member object (.computed (← key.lower))
  | .foreign span _ => .error span

/-- The body of a function. -/
def Block.lower : Block → Except Span Body
  | .expression e => do return .expression (← e.lower)
  | .statements body => do return .block (← lowerStatements body)

/-- Statements in order, empty ones left out. -/
def lowerStatements : List Statement → Except Span (List Stmt)
  | [] => .ok []
  | s :: rest => do
    let s ← s.lower
    return s ++ (← lowerStatements rest)

/-- A statement, if it is not empty. The bodies of a choice are looked at before its test. -/
def Statement.lower : Statement → Except Span (List Stmt)
  | .empty => .ok []
  | .expression e => do return [.expression (← e.lower)]
  | .result none => .ok [.result none]
  | .result (some e) => do return [.result (some (← e.lower))]
  | .branch test yes none => do
    let yes ← yes.lower
    return [.branch (← test.lower) yes []]
  | .branch test yes (some no) => do
    let yes ← yes.lower
    let no ← no.lower
    return [.branch (← test.lower) yes no]
  | .block body => do return [.block (← lowerStatements body)]
  | .foreign span _ => .error span

end

end Trellis.Script
