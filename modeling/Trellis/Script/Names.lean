import Trellis.Script.Syntax
import Trellis.Value

/-!
# The names an expression refers to

A name counts unless a parameter of an arrow around it has that name, or it is one of the few that
every expression knows. Names are looked at in the order of the source, and a name that an arrow
binds counts as bound from where it is bound.

* `Syntax.dependencies`: the namespaces an expression reads or writes, in the order of first use.
-/

namespace Trellis

/-- The names every expression knows. -/
def globalValue? (name : String) : Option Value :=
  match name with
  | "undefined" => some .null
  | "NaN" => some (.number Number.nan)
  | "Infinity" => some (.number Number.infinity)
  | _ => none

namespace Script

/-- What has been met so far: the names bound by the arrows around, innermost first, and the names
that none of them binds, latest first. -/
structure Naming where
  bound : List (List String)
  free : List String

namespace Naming

/-- Meets a name. -/
def refer (n : Naming) (id : String) : Naming :=
  if n.bound.any fun names => names.contains id then n else { n with free := id :: n.free }

/-- Binds a name in the innermost arrow. Outside of all arrows nothing is bound. -/
def bind (n : Naming) (id : String) : Naming :=
  match n.bound with
  | names :: outer => { n with bound := (id :: names) :: outer }
  | [] => n

/-- Goes into an arrow. -/
def enter (n : Naming) : Naming :=
  { n with bound := [] :: n.bound }

/-- Leaves an arrow. -/
def leave (n : Naming) : Naming :=
  { n with bound := n.bound.tail }

end Naming

mutual

/-- Meets the names of an expression. -/
def Syntax.names : Syntax → Naming → Naming
  | .literal _, n => n
  | .name id, n => n.refer id
  | .template _ parts, n => namesOfPieces parts n
  | .member object _, n => object.names n
  | .index object key, n => key.names (object.names n)
  | .array items, n => namesOfAll items n
  | .object entries, n => namesOfEntries entries n
  | .unary _ _ argument, n => argument.names n
  | .binary _ _ left right, n => right.names (left.names n)
  | .logical _ left right, n => right.names (left.names n)
  | .conditional test yes no, n => no.names (yes.names (test.names n))
  | .assign _ _ target value, n => value.names (target.names n)
  | .call callee arguments, n => namesOfAll arguments (callee.names n)
  | .arrow _ _ params none body, n =>
    (body.names (namesOfParams params n.enter)).leave
  | .arrow _ _ params (some rest) body, n =>
    (body.names (namesOfParts rest (namesOfParams params n.enter))).leave
  | .paren inner, n => inner.names n
  | .sequence items, n => namesOfAll items n
  | .spread _ argument _, n => argument.names n
  | .hole _, n => n
  | .foreign _ parts, n => namesOfParts parts n

/-- Meets the names of the expressions in a template. -/
def namesOfPieces : List (Syntax × String) → Naming → Naming
  | [], n => n
  | (e, _) :: rest, n => namesOfPieces rest (e.names n)

/-- Meets the names of expressions in order. -/
def namesOfAll : List Syntax → Naming → Naming
  | [], n => n
  | e :: rest, n => namesOfAll rest (e.names n)

/-- Meets the names of members in order. -/
def namesOfEntries : List Entry → Naming → Naming
  | [], n => n
  | .keyed _ value :: rest, n => namesOfEntries rest (value.names n)
  | .defaulted _ id default :: rest, n => namesOfEntries rest (default.names (n.refer id))
  | .foreign _ parts :: rest, n => namesOfEntries rest (namesOfParts parts n)

/-- Meets the names of what is assigned to. -/
def Place.names : Place → Naming → Naming
  | .name id, n => n.refer id
  | .member object _, n => object.names n
  | .index object key, n => key.names (object.names n)
  | .foreign _ parts, n => namesOfParts parts n

/-- Binds the names of parameters, and meets those of their defaults, in order. -/
def namesOfParams : List Param → Naming → Naming
  | [], n => n
  | .name id none :: rest, n => namesOfParams rest (n.bind id)
  | .name id (some e) :: rest, n => namesOfParams rest (e.names (n.bind id))
  | .pattern _ parts :: rest, n => namesOfParams rest (namesOfParts parts n)

/-- Meets the names of a body. -/
def Block.names : Block → Naming → Naming
  | .expression e, n => e.names n
  | .statements body, n => namesOfStatements body n

/-- Meets the names of statements in order. -/
def namesOfStatements : List Statement → Naming → Naming
  | [], n => n
  | s :: rest, n => namesOfStatements rest (s.names n)

/-- Meets the names of a statement. -/
def Statement.names : Statement → Naming → Naming
  | .empty, n => n
  | .expression e, n => e.names n
  | .result none, n => n
  | .result (some e), n => e.names n
  | .branch test yes none, n => yes.names (test.names n)
  | .branch test yes (some no), n => no.names (yes.names (test.names n))
  | .block body, n => namesOfStatements body n
  | .foreign _ parts, n => namesOfParts parts n

/-- Meets the names of parts in order. -/
def namesOfParts : List Part → Naming → Naming
  | [], n => n
  | .expression e :: rest, n => namesOfParts rest (e.names n)
  | .statement s :: rest, n => namesOfParts rest (s.names n)
  | .binder id :: rest, n => namesOfParts rest (n.bind id)

end

/-- The names that no arrow binds, in order, each time they occur. -/
def Syntax.freeNames (e : Syntax) : List String :=
  (e.names ⟨[], []⟩).free.reverse

/-- The namespaces an expression reads or writes, in the order of first use. -/
def Syntax.dependencies (e : Syntax) : List String :=
  (e.freeNames.filter fun name => (globalValue? name).isNone).eraseDups

end Script

end Trellis
