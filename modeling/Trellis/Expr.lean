import Trellis.Decimal.Layout

/-!
# Expressions

The expressions a schema may hold: literals, names, members, operators, assignments, calls and
functions whose bodies are expressions or short blocks. Every form here has a value; what a source
text may hold besides is turned away before.
-/

namespace Trellis

/-- Constants. -/
inductive Literal where
  | null
  | bool (b : Bool)
  | number (x : Float)
  | string (s : String)

/-- Operators with one operand. -/
inductive UnaryOp where
  | not
  | negate
  | plus
  | typeof
  deriving DecidableEq, Repr

/-- Operators that also assign. -/
inductive Arithmetic where
  | add
  | sub
  | mul
  | div
  | rem
  deriving DecidableEq, Repr

/-- Tests between two values. -/
inductive Comparison where
  | eq
  | notEq
  | strictEq
  | strictNotEq
  | lt
  | le
  | gt
  | ge
  deriving DecidableEq, Repr

/-- Operators with two operands, both of which are evaluated. -/
inductive BinaryOp where
  | arithmetic (op : Arithmetic)
  | comparison (op : Comparison)
  deriving DecidableEq, Repr

/-- Operators that may leave the second operand alone. -/
inductive LogicalOp where
  | and
  | or
  | coalesce
  deriving DecidableEq, Repr

/-- Plain and compound assignment. -/
inductive AssignOp where
  | assign
  | arithmetic (op : Arithmetic)
  | logical (op : LogicalOp)
  deriving DecidableEq, Repr

mutual

/-- An expression. A template is a text followed by expressions with a text behind each. -/
inductive Expr where
  | literal (value : Literal)
  | name (id : String)
  | template (head : String) (parts : List (Expr × String))
  | member (object : Expr) (property : Property)
  | array (items : List Expr)
  | object (entries : List (String × Expr))
  | unary (op : UnaryOp) (argument : Expr)
  | binary (op : BinaryOp) (left right : Expr)
  | logical (op : LogicalOp) (left right : Expr)
  | conditional (test yes no : Expr)
  | assign (op : AssignOp) (target : Target) (value : Expr)
  | call (callee : Expr) (arguments : List Expr)
  | lambda (params : List String) (body : Body)
  | sequence (items : List Expr)

/-- How a member is named. -/
inductive Property where
  | static (name : String)
  | computed (key : Expr)

/-- What is assigned to. -/
inductive Target where
  | name (id : String)
  | member (object : Expr) (property : Property)

/-- The body of a function. -/
inductive Body where
  | expression (e : Expr)
  | block (statements : List Stmt)

/-- A statement in the body of a function. -/
inductive Stmt where
  | expression (e : Expr)
  | result (value : Option Expr)
  | branch (test : Expr) (yes no : List Stmt)
  | block (statements : List Stmt)

end

instance : Inhabited Expr := ⟨.literal .null⟩

/-- The text of a constant. -/
def Literal.text : Literal → String
  | null => ""
  | bool b => if b then "true" else "false"
  | number x => Number.text x
  | string s => s

/-- A short label for an expression, for the fault of calling or assigning to it. -/
def Expr.label : Expr → String
  | name id => id
  | member owner (.static key) => label owner ++ "." ++ key
  | member owner (.computed _) => label owner ++ "[...]"
  | literal value => value.text
  | call callee _ => label callee ++ "(...)"
  | _ => "expression"

end Trellis
