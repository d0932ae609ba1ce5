import Trellis.Proofs.Script.Uses

/-!
# Free names of expressions

The names an expression refers to, as values or as roots of what is assigned to, where no function
around has a parameter of the name. Every use is of one of them. Not all of them are used: below
what is not a chain of members nothing is ever assigned, so that names in it go unused.

* `Expr.freeNames`: the free names, in the order of the expression, each time they occur.
* `Expr.uses_free`: what is used is free.
-/

namespace Trellis

mutual

/-- The names that no parameter around them has, in order, each time they occur. -/
def Expr.freeNames : Expr → List String
  | .literal _ => []
  | .name id => [id]
  | .template _ parts => freeNamesOfParts parts
  | .member object property => object.freeNames ++ property.freeNames
  | .array items => freeNamesOfAll items
  | .object entries => freeNamesOfEntries entries
  | .unary _ argument => argument.freeNames
  | .binary _ left right => left.freeNames ++ right.freeNames
  | .logical _ left right => left.freeNames ++ right.freeNames
  | .conditional test yes no => test.freeNames ++ (yes.freeNames ++ no.freeNames)
  | .assign _ target value => target.freeNames ++ value.freeNames
  | .call callee arguments => callee.freeNames ++ freeNamesOfAll arguments
  | .lambda params body => body.freeNames.filter (· ∉ params)
  | .sequence items => freeNamesOfAll items

/-- The free names in the name of a member. -/
def Property.freeNames : Property → List String
  | .static _ => []
  | .computed key => key.freeNames

/-- The free names in what is assigned to. -/
def Target.freeNames : Target → List String
  | .name id => [id]
  | .member object property => object.freeNames ++ property.freeNames

/-- The free names in the parts of a template. -/
def freeNamesOfParts : List (Expr × String) → List String
  | [] => []
  | (e, _) :: rest => e.freeNames ++ freeNamesOfParts rest

/-- The free names in expressions in order. -/
def freeNamesOfAll : List Expr → List String
  | [] => []
  | e :: rest => e.freeNames ++ freeNamesOfAll rest

/-- The free names in the members of an object. -/
def freeNamesOfEntries : List (String × Expr) → List String
  | [] => []
  | (_, e) :: rest => e.freeNames ++ freeNamesOfEntries rest

/-- The free names in the body of a function. -/
def Body.freeNames : Body → List String
  | .expression e => e.freeNames
  | .block statements => freeNamesOfStatements statements

/-- The free names in a statement. -/
def Stmt.freeNames : Stmt → List String
  | .expression e => e.freeNames
  | .result none => []
  | .result (some e) => e.freeNames
  | .branch test yes no =>
    test.freeNames ++ (freeNamesOfStatements yes ++ freeNamesOfStatements no)
  | .block statements => freeNamesOfStatements statements

/-- The free names in statements in order. -/
def freeNamesOfStatements : List Stmt → List String
  | [] => []
  | s :: rest => s.freeNames ++ freeNamesOfStatements rest

end

theorem freeNamesOfStatements_append : ∀ stmts rest : List Stmt,
    freeNamesOfStatements (stmts ++ rest) = freeNamesOfStatements stmts ++ freeNamesOfStatements rest
  | [], _ => rfl
  | s :: stmts, rest => by
    rw [List.cons_append, freeNamesOfStatements, freeNamesOfStatements,
      freeNamesOfStatements_append stmts rest, List.append_assoc]

/-! ### Uses -/

/-- The names of the uses are among the free names and not held. -/
def UsesFree (held : List String) (uses : List Use) (names : List String) : Prop :=
  ∀ u ∈ uses, u.name ∈ names ∧ u.name ∉ held

section UsesFree

variable {held : List String} {us vs : List Use} {xs ys : List String}

theorem UsesFree.nil : UsesFree held [] xs :=
  List.forall_mem_nil _

theorem UsesFree.append (h : UsesFree held us xs) (h' : UsesFree held vs ys) :
    UsesFree held (us ++ vs) (xs ++ ys) :=
  List.forall_mem_append.2 ⟨fun u hu => ⟨List.mem_append_left _ (h u hu).1, (h u hu).2⟩,
    fun u hu => ⟨List.mem_append_right _ (h' u hu).1, (h' u hu).2⟩⟩

theorem UsesFree.outside (u : Use) : UsesFree held (u.outside held) [u.name] := by
  unfold Use.outside
  split
  · exact .nil
  · next h => exact List.forall_mem_singleton.2 ⟨List.mem_singleton_self _, h⟩

/-- What is used in the body of a function besides its parameters is used by the function. -/
theorem UsesFree.lambda {params : List String} (h : UsesFree (params.reverse ++ held) us xs) :
    UsesFree held us (xs.filter (· ∉ params)) := by
  intro u hu
  obtain ⟨hfree, hheld⟩ := h u hu
  rw [List.mem_append, List.mem_reverse, not_or] at hheld
  exact ⟨List.mem_filter.2 ⟨hfree, decide_eq_true hheld.1⟩, hheld.2⟩

end UsesFree

mutual

/-- **Uses** are of free names. -/
theorem Expr.uses_free (held : List String) : ∀ e : Expr, UsesFree held (e.uses held) e.freeNames
  | .literal _ => .nil
  | .name id => .outside (.read id)
  | .template _ parts => usesOfParts_free held parts
  | .member object property => (object.uses_free held).append (property.uses_free held)
  | .array items => usesOfAll_free held items
  | .object entries => usesOfEntries_free held entries
  | .unary _ argument => argument.uses_free held
  | .binary _ left right => (left.uses_free held).append (right.uses_free held)
  | .logical _ left right => (left.uses_free held).append (right.uses_free held)
  | .conditional test yes no =>
    (test.uses_free held).append ((yes.uses_free held).append (no.uses_free held))
  | .assign _ target value => (target.uses_free held).append (value.uses_free held)
  | .call callee arguments => (callee.uses_free held).append (usesOfAll_free held arguments)
  | .lambda params body => (body.uses_free (params.reverse ++ held)).lambda
  | .sequence items => usesOfAll_free held items

theorem Property.uses_free (held : List String) :
    ∀ p : Property, UsesFree held (p.uses held) p.freeNames
  | .static _ => .nil
  | .computed key => key.uses_free held

theorem Target.uses_free (held : List String) :
    ∀ t : Target, UsesFree held (t.uses held) t.freeNames
  | .name id => .outside (.write id)
  | .member object property => (object.chainUses_free held).append (property.uses_free held)

theorem Expr.chainUses_free (held : List String) :
    ∀ e : Expr, UsesFree held (e.chainUses held) e.freeNames
  | .name id => .outside (.write id)
  | .member object property => (object.chainUses_free held).append (property.uses_free held)
  | .literal _ | .template _ _ | .array _ | .object _ | .unary _ _ | .binary _ _ _
  | .logical _ _ _ | .conditional _ _ _ | .assign _ _ _ | .call _ _ | .lambda _ _
  | .sequence _ => .nil

theorem usesOfParts_free (held : List String) :
    ∀ parts : List (Expr × String), UsesFree held (usesOfParts held parts) (freeNamesOfParts parts)
  | [] => .nil
  | (e, _) :: rest => (e.uses_free held).append (usesOfParts_free held rest)

theorem usesOfAll_free (held : List String) :
    ∀ items : List Expr, UsesFree held (usesOfAll held items) (freeNamesOfAll items)
  | [] => .nil
  | e :: rest => (e.uses_free held).append (usesOfAll_free held rest)

theorem usesOfEntries_free (held : List String) : ∀ entries : List (String × Expr),
    UsesFree held (usesOfEntries held entries) (freeNamesOfEntries entries)
  | [] => .nil
  | (_, e) :: rest => (e.uses_free held).append (usesOfEntries_free held rest)

theorem Body.uses_free (held : List String) : ∀ b : Body, UsesFree held (b.uses held) b.freeNames
  | .expression e => e.uses_free held
  | .block statements => usesOfStatements_free held statements

theorem Stmt.uses_free (held : List String) : ∀ s : Stmt, UsesFree held (s.uses held) s.freeNames
  | .expression e => e.uses_free held
  | .result none => .nil
  | .result (some e) => e.uses_free held
  | .branch test yes no => (test.uses_free held).append
    ((usesOfStatements_free held yes).append (usesOfStatements_free held no))
  | .block statements => usesOfStatements_free held statements

theorem usesOfStatements_free (held : List String) : ∀ stmts : List Stmt,
    UsesFree held (usesOfStatements held stmts) (freeNamesOfStatements stmts)
  | [] => .nil
  | s :: rest => (s.uses_free held).append (usesOfStatements_free held rest)

end

end Trellis
