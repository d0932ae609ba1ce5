import Trellis.Expr

/-!
# Syntax trees

What a source text spells, before anything is turned away. A form that may occur in an expression
of ours has a constructor of its own, with the text of its operator where there is a choice. Any
other form is `foreign`: the place it takes up, and what it is made of in the order in which it is
read, since names in it may still count.
-/

namespace Trellis.Script

/-- A place in the source, from the first character up to the one behind the last. -/
structure Span where
  start : Nat
  stop : Nat
  deriving DecidableEq, Repr, Inhabited

mutual

/-- An expression. The items of arrays and calls may be spreads, which say whether a comma follows,
and those of arrays holes. -/
inductive Syntax where
  | literal (value : Literal)
  | name (id : String)
  | template (head : String) (parts : List (Syntax × String))
  | member (object : Syntax) (key : String)
  | index (object key : Syntax)
  | array (items : List Syntax)
  | object (entries : List Entry)
  | unary (span : Span) (op : String) (argument : Syntax)
  | binary (span : Span) (op : String) (left right : Syntax)
  | logical (op : LogicalOp) (left right : Syntax)
  | conditional (test yes no : Syntax)
  | assign (span : Span) (op : String) (target : Place) (value : Syntax)
  | call (callee : Syntax) (arguments : List Syntax)
  | arrow (span : Span) (isAsync : Bool) (params : List Param) (rest : Option (List Part))
    (body : Block)
  | paren (inner : Syntax)
  | sequence (items : List Syntax)
  | spread (span : Span) (argument : Syntax) (comma : Bool)
  | hole (span : Span)
  | foreign (span : Span) (parts : List Part)

/-- A member of an object expression. A shorthand with a default is no expression; it may become
part of a pattern. -/
inductive Entry where
  | keyed (key : String) (value : Syntax)
  | defaulted (span : Span) (id : String) (default : Syntax)
  | foreign (span : Span) (parts : List Part)

/-- What is assigned to. -/
inductive Place where
  | name (id : String)
  | member (object : Syntax) (key : String)
  | index (object key : Syntax)
  | foreign (span : Span) (parts : List Part)

/-- A parameter of an arrow: a name, perhaps with a default, or a pattern. -/
inductive Param where
  | name (id : String) (default : Option Syntax)
  | pattern (span : Span) (parts : List Part)

/-- The body of an arrow, directives left out. -/
inductive Block where
  | expression (e : Syntax)
  | statements (body : List Statement)

/-- A statement. -/
inductive Statement where
  | empty
  | expression (e : Syntax)
  | result (value : Option Syntax)
  | branch (test : Syntax) (yes : Statement) (no : Option Statement)
  | block (body : List Statement)
  | foreign (span : Span) (parts : List Part)

/-- Part of a foreign form: an expression, a statement, or a name it binds. -/
inductive Part where
  | expression (e : Syntax)
  | statement (s : Statement)
  | binder (id : String)

end

instance : Inhabited Syntax := ⟨.literal .null⟩

/-- The parts of an optional expression. -/
def Part.ofOption : Option Syntax → List Part
  | some e => [.expression e]
  | none => []

/-- The parts of a parameter in the order in which they are read. -/
def Param.parts : Param → List Part
  | name id default => .binder id :: Part.ofOption default
  | pattern _ parts => parts

end Trellis.Script
