import Trellis.Script.Names

/-!
# The names an expression uses

An expression uses a name that no parameter around it has by reading it, or by assigning to a
member below it; whatever a function made by it will use counts as well.

* `Expr.uses`: the uses, in the order of the expression.
* `Confine`: no uses of namespaces but some. The names every expression knows are read without any
  namespace, but nothing below them is assigned to.
-/

namespace Trellis

/-- A use of a name: it is read, or something below it is assigned to. -/
inductive Use where
  | read (id : String)
  | write (id : String)
  deriving DecidableEq, Repr

namespace Use

/-- The name that is used. -/
def name : Use → String
  | read id => id
  | write id => id

/-- The use, unless the name is one of the parameters `held`. -/
def outside (held : List String) (u : Use) : List Use :=
  if u.name ∈ held then [] else [u]

/-- One of the uses `N` of namespaces, or reading a name that every expression knows. -/
def Within (N : Use → Prop) : Use → Prop
  | read id => (globalValue? id).isSome ∨ N (read id)
  | write id => N (write id)

end Use

/-- No uses of namespaces but those in `N`, and none below the names that every expression knows. -/
def Confine (N : Use → Prop) (uses : List Use) : Prop :=
  ∀ u ∈ uses, u.Within N

section Confine

variable {N : Use → Prop}

theorem confine_append {us vs : List Use} :
    Confine N (us ++ vs) ↔ Confine N us ∧ Confine N vs :=
  List.forall_mem_append

/-- A parameter may be used in any way. -/
theorem confine_outside {held : List String} {u : Use} :
    Confine N (u.outside held) ↔ u.name ∈ held ∨ u.Within N := by
  unfold Confine Use.outside
  split
  · next h => simp [h]
  · next h => simp [h]

/-- Any use is allowed. -/
theorem confine_true (us : List Use) : Confine (fun _ => True) us := by
  rintro (id | id) -
  · exact .inr trivial
  · exact trivial

end Confine

mutual

/-- The uses of names other than the parameters `held`. -/
def Expr.uses (held : List String) : Expr → List Use
  | .literal _ => []
  | .name id => (Use.read id).outside held
  | .template _ parts => usesOfParts held parts
  | .member object property => object.uses held ++ property.uses held
  | .array items => usesOfAll held items
  | .object entries => usesOfEntries held entries
  | .unary _ argument => argument.uses held
  | .binary _ left right => left.uses held ++ right.uses held
  | .logical _ left right => left.uses held ++ right.uses held
  | .conditional test yes no => test.uses held ++ (yes.uses held ++ no.uses held)
  | .assign _ target value => target.uses held ++ value.uses held
  | .call callee arguments => callee.uses held ++ usesOfAll held arguments
  | .lambda params body => body.uses (params.reverse ++ held)
  | .sequence items => usesOfAll held items

/-- The uses in the name of a member. -/
def Property.uses (held : List String) : Property → List Use
  | .static _ => []
  | .computed key => key.uses held

/-- The uses in what is assigned to. -/
def Target.uses (held : List String) : Target → List Use
  | .name id => (Use.write id).outside held
  | .member object property => object.chainUses held ++ property.uses held

/-- The uses in a chain of members below which is assigned. -/
def Expr.chainUses (held : List String) : Expr → List Use
  | .name id => (Use.write id).outside held
  | .member object property => object.chainUses held ++ property.uses held
  | _ => []

/-- The uses in the parts of a template. -/
def usesOfParts (held : List String) : List (Expr × String) → List Use
  | [] => []
  | (e, _) :: rest => e.uses held ++ usesOfParts held rest

/-- The uses in expressions in order. -/
def usesOfAll (held : List String) : List Expr → List Use
  | [] => []
  | e :: rest => e.uses held ++ usesOfAll held rest

/-- The uses in the members of an object. -/
def usesOfEntries (held : List String) : List (String × Expr) → List Use
  | [] => []
  | (_, e) :: rest => e.uses held ++ usesOfEntries held rest

/-- The uses in the body of a function. -/
def Body.uses (held : List String) : Body → List Use
  | .expression e => e.uses held
  | .block statements => usesOfStatements held statements

/-- The uses in a statement. -/
def Stmt.uses (held : List String) : Stmt → List Use
  | .expression e => e.uses held
  | .result none => []
  | .result (some e) => e.uses held
  | .branch test yes no => test.uses held ++ (usesOfStatements held yes ++ usesOfStatements held no)
  | .block statements => usesOfStatements held statements

/-- The uses in statements in order. -/
def usesOfStatements (held : List String) : List Stmt → List Use
  | [] => []
  | s :: rest => s.uses held ++ usesOfStatements held rest

end

end Trellis
