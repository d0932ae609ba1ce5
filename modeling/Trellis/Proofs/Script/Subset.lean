import Trellis.Proofs.Acts
import Trellis.Proofs.Script.Free

/-!
# The subset of the language

Which trees stand for expressions: those of the subset that is documented, but for the defaults of
parameters, which go unnoticed.

* `Syntax.Within`: the trees of the subset, for parameters of some kind.
* `Syntax.Documented`: the subset as documented, in which parameters are names.
* `Syntax.exists_lower_ok`: which trees stand for expressions.
* `Syntax.documented_iff`: what defaults have to do with it.
-/

namespace Trellis.Script

/-! ### Operators -/

/-- How operators with one operand are written. -/
def unaryTexts : List String := ["!", "-", "+", "typeof"]

/-- How operators with two operands are written that need both. -/
def binaryTexts : List String :=
  ["+", "-", "*", "/", "%", "==", "!=", "===", "!==", "<", "<=", ">", ">="]

/-- How assignments are written. -/
def assignTexts : List String := ["=", "+=", "-=", "*=", "/=", "%=", "??=", "||=", "&&="]

theorem isSome_unaryOp? {op : String} : (unaryOp? op).isSome ↔ op ∈ unaryTexts := by
  constructor
  · unfold unaryOp?
    split
    case h_5 => exact nofun
    all_goals exact fun _ => by decide
  · revert op
    decide

theorem isSome_binaryOp? {op : String} : (binaryOp? op).isSome ↔ op ∈ binaryTexts := by
  constructor
  · unfold binaryOp?
    split
    case h_14 => exact nofun
    all_goals exact fun _ => by decide
  · revert op
    decide

theorem isSome_assignOp? {op : String} : (assignOp? op).isSome ↔ op ∈ assignTexts := by
  constructor
  · unfold assignOp?
    split
    case h_10 => exact nofun
    all_goals exact fun _ => by decide
  · revert op
    decide

/-! ### The subset -/

/-- The parameter is a name, with a default or without. -/
def Param.Named (p : Param) : Prop := ∃ id default, p = .name id default

/-- The parameter is a name and nothing else. -/
def Param.Simple (p : Param) : Prop := ∃ id, p = .name id none

mutual

/-- Every form in the tree is of the subset, parameters being such that `P` holds. -/
def Syntax.Within (P : Param → Prop) : Syntax → Prop
  | .literal _ => True
  | .name _ => True
  | .template _ parts => WithinPieces P parts
  | .member object _ => object.Within P
  | .index object key => object.Within P ∧ key.Within P
  | .array items => WithinAll P items
  | .object entries => WithinEntries P entries
  | .unary _ op argument => op ∈ unaryTexts ∧ argument.Within P
  | .binary _ op left right => op ∈ binaryTexts ∧ left.Within P ∧ right.Within P
  | .logical _ left right => left.Within P ∧ right.Within P
  | .conditional test yes no => test.Within P ∧ yes.Within P ∧ no.Within P
  | .assign _ op target value => op ∈ assignTexts ∧ target.Within P ∧ value.Within P
  | .call callee arguments => callee.Within P ∧ WithinAll P arguments
  | .arrow _ isAsync params rest body =>
    isAsync = false ∧ rest = none ∧ (∀ p ∈ params, P p) ∧ body.Within P
  | .paren inner => inner.Within P
  | .sequence items => WithinAll P items
  | .spread _ _ _ => False
  | .hole _ => False
  | .foreign _ _ => False

/-- The expressions of a template are of the subset. -/
def WithinPieces (P : Param → Prop) : List (Syntax × String) → Prop
  | [] => True
  | (e, _) :: rest => e.Within P ∧ WithinPieces P rest

/-- Some expressions are of the subset. -/
def WithinAll (P : Param → Prop) : List Syntax → Prop
  | [] => True
  | e :: rest => e.Within P ∧ WithinAll P rest

/-- The members of an object have plain keys, and their values are of the subset. -/
def WithinEntries (P : Param → Prop) : List Entry → Prop
  | [] => True
  | .keyed _ value :: rest => value.Within P ∧ WithinEntries P rest
  | .defaulted _ _ _ :: _ => False
  | .foreign _ _ :: _ => False

/-- What is assigned to is a name or a member. -/
def Place.Within (P : Param → Prop) : Place → Prop
  | .name _ => True
  | .member object _ => object.Within P
  | .index object key => object.Within P ∧ key.Within P
  | .foreign _ _ => False

/-- The body of an arrow is of the subset. -/
def Block.Within (P : Param → Prop) : Block → Prop
  | .expression e => e.Within P
  | .statements body => WithinStatements P body

/-- Some statements are of the subset. -/
def WithinStatements (P : Param → Prop) : List Statement → Prop
  | [] => True
  | s :: rest => s.Within P ∧ WithinStatements P rest

/-- The statement is of the subset. -/
def Statement.Within (P : Param → Prop) : Statement → Prop
  | .empty => True
  | .expression e => e.Within P
  | .result none => True
  | .result (some e) => e.Within P
  | .branch test yes none => test.Within P ∧ yes.Within P
  | .branch test yes (some no) => test.Within P ∧ yes.Within P ∧ no.Within P
  | .block body => WithinStatements P body
  | .foreign _ _ => False

end

/-- The tree is of the subset that is documented. -/
def Syntax.Documented (e : Syntax) : Prop := e.Within Param.Simple

theorem not_special_iff {isAsync : Bool} {rest : Option (List Part)} :
    ¬ (isAsync || rest.isSome) = true ↔ isAsync = false ∧ rest = none := by
  rw [Bool.or_eq_true, not_or, Bool.not_eq_true, Option.not_isSome_iff_eq_none]

theorem exists_lowerParams_ok : ∀ {params : List Param},
    (∃ names, lowerParams params = .ok names) ↔ ∀ p ∈ params, p.Named
  | [] => ⟨fun _ => List.forall_mem_nil _, fun _ => ⟨[], rfl⟩⟩
  | .name id default :: rest => by
    have hnamed : (Param.name id default).Named := ⟨id, default, rfl⟩
    rw [lowerParams, List.forall_mem_cons, ← exists_lowerParams_ok, and_iff_right hnamed]
    exact Except.exists_bind_pure_ok
  | .pattern _ _ :: _ => ⟨nofun, fun h => nomatch h _ List.mem_cons_self⟩

mutual

/-- **A tree stands for an expression** if it is of the subset, with or without defaults. -/
theorem Syntax.exists_lower_ok : ∀ e : Syntax, (∃ x, e.lower = .ok x) ↔ e.Within Param.Named
  | .literal _ | .name _ => ⟨fun _ => trivial, fun _ => ⟨_, rfl⟩⟩
  | .template _ parts => by
    rw [Syntax.lower, Syntax.Within, ← exists_lowerParts_ok parts]
    exact Except.exists_bind_pure_ok
  | .member object _ => by
    rw [Syntax.lower, Syntax.Within, ← object.exists_lower_ok]
    exact Except.exists_bind_pure_ok
  | .index object key => by
    rw [Syntax.lower, Syntax.Within, ← object.exists_lower_ok, ← key.exists_lower_ok]
    exact Except.exists_both_ok
  | .array items => by
    rw [Syntax.lower, Syntax.Within, ← exists_lowerAll_ok items]
    exact Except.exists_bind_pure_ok
  | .object entries => by
    rw [Syntax.lower, Syntax.Within, ← exists_lowerEntries_ok entries]
    exact Except.exists_bind_pure_ok
  | .unary _ text argument => by
    rw [Syntax.lower, Syntax.Within, ← isSome_unaryOp?, ← argument.exists_lower_ok]
    split
    · next op hop =>
      rw [hop, and_iff_right Option.isSome_some]
      exact Except.exists_bind_pure_ok
    · next hop =>
      rw [hop]
      exact ⟨nofun, nofun⟩
  | .binary _ text left right => by
    rw [Syntax.lower, Syntax.Within, ← isSome_binaryOp?, ← left.exists_lower_ok,
      ← right.exists_lower_ok]
    split
    · next op hop =>
      rw [hop, and_iff_right Option.isSome_some]
      exact Except.exists_both_ok
    · next hop =>
      rw [hop]
      exact ⟨nofun, nofun⟩
  | .logical _ left right => by
    rw [Syntax.lower, Syntax.Within, ← left.exists_lower_ok, ← right.exists_lower_ok]
    exact Except.exists_both_ok
  | .conditional test yes no => by
    rw [Syntax.lower, Syntax.Within, ← test.exists_lower_ok, ← yes.exists_lower_ok,
      ← no.exists_lower_ok]
    exact Except.exists_three_ok
  | .assign _ text target value => by
    rw [Syntax.lower, Syntax.Within, ← isSome_assignOp?, ← target.exists_lower_ok,
      ← value.exists_lower_ok]
    split
    · next op hop =>
      rw [hop, and_iff_right Option.isSome_some]
      exact Except.exists_both_ok
    · next hop =>
      rw [hop]
      exact ⟨nofun, nofun⟩
  | .call callee arguments => by
    rw [Syntax.lower, Syntax.Within, ← callee.exists_lower_ok, ← exists_lowerAll_ok arguments,
      and_comm]
    exact Except.exists_both_ok
  | .arrow _ isAsync params rest body => by
    rw [Syntax.lower, Syntax.Within, ← exists_lowerParams_ok, ← body.exists_lower_ok]
    split
    · next hspecial =>
      refine ⟨nofun, fun ⟨hasync, hrest, _⟩ => ?_⟩
      exact absurd hspecial (not_special_iff.2 ⟨hasync, hrest⟩)
    · next hplain =>
      obtain ⟨hasync, hrest⟩ := not_special_iff.1 hplain
      rw [and_iff_right hasync, and_iff_right hrest]
      exact Except.exists_both_ok
  | .paren inner => by
    rw [Syntax.lower, Syntax.Within]
    exact inner.exists_lower_ok
  | .sequence items => by
    rw [Syntax.lower, Syntax.Within, ← exists_lowerAll_ok items]
    exact Except.exists_bind_pure_ok
  | .spread _ _ _ | .hole _ | .foreign _ _ => ⟨nofun, nofun⟩

theorem exists_lowerParts_ok : ∀ parts : List (Syntax × String),
    (∃ xs, lowerParts parts = .ok xs) ↔ WithinPieces Param.Named parts
  | [] => ⟨fun _ => trivial, fun _ => ⟨_, rfl⟩⟩
  | (e, _) :: rest => by
    rw [lowerParts, WithinPieces, ← e.exists_lower_ok, ← exists_lowerParts_ok rest]
    exact Except.exists_both_ok

theorem exists_lowerAll_ok : ∀ items : List Syntax,
    (∃ xs, lowerAll items = .ok xs) ↔ WithinAll Param.Named items
  | [] => ⟨fun _ => trivial, fun _ => ⟨_, rfl⟩⟩
  | e :: rest => by
    rw [lowerAll, WithinAll, ← e.exists_lower_ok, ← exists_lowerAll_ok rest]
    exact Except.exists_both_ok

theorem exists_lowerEntries_ok : ∀ entries : List Entry,
    (∃ xs, lowerEntries entries = .ok xs) ↔ WithinEntries Param.Named entries
  | [] => ⟨fun _ => trivial, fun _ => ⟨_, rfl⟩⟩
  | .keyed _ value :: rest => by
    rw [lowerEntries, WithinEntries, ← value.exists_lower_ok, ← exists_lowerEntries_ok rest]
    exact Except.exists_both_ok
  | .defaulted _ _ _ :: _ | .foreign _ _ :: _ => ⟨nofun, nofun⟩

theorem Place.exists_lower_ok : ∀ p : Place, (∃ x, p.lower = .ok x) ↔ p.Within Param.Named
  | .name _ => ⟨fun _ => trivial, fun _ => ⟨_, rfl⟩⟩
  | .member object _ => by
    rw [Place.lower, Place.Within, ← object.exists_lower_ok]
    exact Except.exists_bind_pure_ok
  | .index object key => by
    rw [Place.lower, Place.Within, ← object.exists_lower_ok, ← key.exists_lower_ok]
    exact Except.exists_both_ok
  | .foreign _ _ => ⟨nofun, nofun⟩

theorem Block.exists_lower_ok : ∀ b : Block, (∃ x, b.lower = .ok x) ↔ b.Within Param.Named
  | .expression e => by
    rw [Block.lower, Block.Within, ← e.exists_lower_ok]
    exact Except.exists_bind_pure_ok
  | .statements body => by
    rw [Block.lower, Block.Within, ← exists_lowerStatements_ok body]
    exact Except.exists_bind_pure_ok

theorem exists_lowerStatements_ok : ∀ body : List Statement,
    (∃ xs, lowerStatements body = .ok xs) ↔ WithinStatements Param.Named body
  | [] => ⟨fun _ => trivial, fun _ => ⟨_, rfl⟩⟩
  | s :: rest => by
    rw [lowerStatements, WithinStatements, ← s.exists_lower_ok, ← exists_lowerStatements_ok rest]
    exact Except.exists_both_ok

theorem Statement.exists_lower_ok : ∀ s : Statement,
    (∃ x, s.lower = .ok x) ↔ s.Within Param.Named
  | .empty | .result none => ⟨fun _ => trivial, fun _ => ⟨_, rfl⟩⟩
  | .expression e => by
    rw [Statement.lower, Statement.Within, ← e.exists_lower_ok]
    exact Except.exists_bind_pure_ok
  | .result (some e) => by
    rw [Statement.lower, Statement.Within, ← e.exists_lower_ok]
    exact Except.exists_bind_pure_ok
  | .branch test yes none => by
    -- the bodies of a choice are looked at before its test
    rw [Statement.lower, Statement.Within, ← test.exists_lower_ok, ← yes.exists_lower_ok, and_comm]
    exact Except.exists_both_ok
  | .branch test yes (some no) => by
    rw [Statement.lower, Statement.Within, ← test.exists_lower_ok, ← yes.exists_lower_ok,
      ← no.exists_lower_ok, and_rotate]
    exact Except.exists_three_ok
  | .block body => by
    rw [Statement.lower, Statement.Within, ← exists_lowerStatements_ok body]
    exact Except.exists_bind_pure_ok
  | .foreign _ _ => ⟨nofun, nofun⟩

end

/-! ### Defaults -/

/-- Two trees are documented if both are of the subset and neither has a default. -/
theorem documented_append {p q p' q' : Prop} {l m : List Syntax} (h : p ↔ p' ∧ l = [])
    (h' : q ↔ q' ∧ m = []) : p ∧ q ↔ (p' ∧ q') ∧ l ++ m = [] := by
  rw [h, h', List.append_eq_nil_iff, and_and_and_comm]

theorem documented_guard {g p p' : Prop} {l : List Syntax} (h : p ↔ p' ∧ l = []) :
    g ∧ p ↔ (g ∧ p') ∧ l = [] := by
  rw [h, and_assoc]

theorem documentedParams_iff {params : List Param} :
    (∀ p ∈ params, p.Simple) ↔ (∀ p ∈ params, p.Named) ∧ params.filterMap Param.default? = [] := by
  rw [List.filterMap_eq_nil_iff]
  constructor
  · refine fun h => ⟨fun p hp => ?_, fun p hp => ?_⟩
    · obtain ⟨id, rfl⟩ := h p hp
      exact ⟨id, none, rfl⟩
    · obtain ⟨id, rfl⟩ := h p hp
      rfl
  · rintro ⟨hnamed, hnone⟩ p hp
    obtain ⟨id, default, rfl⟩ := hnamed p hp
    exact ⟨id, congrArg (Param.name id) (hnone _ hp)⟩

mutual

/-- **Documented trees** are those of the subset in which no parameter has a default. -/
theorem Syntax.documented_iff : ∀ e : Syntax,
    e.Within Param.Simple ↔ e.Within Param.Named ∧ e.defaults = []
  | .literal _ | .name _ => ⟨fun _ => ⟨trivial, rfl⟩, fun _ => trivial⟩
  | .template _ parts => documentedPieces_iff parts
  | .member object _ => object.documented_iff
  | .index object key => documented_append object.documented_iff key.documented_iff
  | .array items => documentedAll_iff items
  | .object entries => documentedEntries_iff entries
  | .unary _ _ argument => documented_guard argument.documented_iff
  | .binary _ _ left right =>
    documented_guard (documented_append left.documented_iff right.documented_iff)
  | .logical _ left right => documented_append left.documented_iff right.documented_iff
  | .conditional test yes no =>
    documented_append test.documented_iff (documented_append yes.documented_iff no.documented_iff)
  | .assign _ _ target value =>
    documented_guard (documented_append target.documented_iff value.documented_iff)
  | .call callee arguments =>
    documented_append callee.documented_iff (documentedAll_iff arguments)
  | .arrow _ _ _ _ body => documented_guard (documented_guard
      (documented_append documentedParams_iff body.documented_iff))
  | .paren inner => inner.documented_iff
  | .sequence items => documentedAll_iff items
  | .spread _ _ _ | .hole _ | .foreign _ _ => ⟨nofun, fun h => nomatch h.1⟩

theorem documentedPieces_iff : ∀ parts : List (Syntax × String),
    WithinPieces Param.Simple parts ↔ WithinPieces Param.Named parts ∧ defaultsOfPieces parts = []
  | [] => ⟨fun _ => ⟨trivial, rfl⟩, fun _ => trivial⟩
  | (e, _) :: rest => documented_append e.documented_iff (documentedPieces_iff rest)

theorem documentedAll_iff : ∀ items : List Syntax,
    WithinAll Param.Simple items ↔ WithinAll Param.Named items ∧ defaultsOfAll items = []
  | [] => ⟨fun _ => ⟨trivial, rfl⟩, fun _ => trivial⟩
  | e :: rest => documented_append e.documented_iff (documentedAll_iff rest)

theorem documentedEntries_iff : ∀ entries : List Entry, WithinEntries Param.Simple entries ↔
    WithinEntries Param.Named entries ∧ defaultsOfEntries entries = []
  | [] => ⟨fun _ => ⟨trivial, rfl⟩, fun _ => trivial⟩
  | .keyed _ value :: rest => documented_append value.documented_iff (documentedEntries_iff rest)
  | .defaulted _ _ _ :: _ | .foreign _ _ :: _ => ⟨nofun, fun h => nomatch h.1⟩

theorem Place.documented_iff : ∀ p : Place,
    p.Within Param.Simple ↔ p.Within Param.Named ∧ p.defaults = []
  | .name _ => ⟨fun _ => ⟨trivial, rfl⟩, fun _ => trivial⟩
  | .member object _ => object.documented_iff
  | .index object key => documented_append object.documented_iff key.documented_iff
  | .foreign _ _ => ⟨nofun, fun h => nomatch h.1⟩

theorem Block.documented_iff : ∀ b : Block,
    b.Within Param.Simple ↔ b.Within Param.Named ∧ b.defaults = []
  | .expression e => e.documented_iff
  | .statements body => documentedStatements_iff body

theorem documentedStatements_iff : ∀ body : List Statement, WithinStatements Param.Simple body ↔
    WithinStatements Param.Named body ∧ defaultsOfStatements body = []
  | [] => ⟨fun _ => ⟨trivial, rfl⟩, fun _ => trivial⟩
  | s :: rest => documented_append s.documented_iff (documentedStatements_iff rest)

theorem Statement.documented_iff : ∀ s : Statement,
    s.Within Param.Simple ↔ s.Within Param.Named ∧ s.defaults = []
  | .empty | .result none => ⟨fun _ => ⟨trivial, rfl⟩, fun _ => trivial⟩
  | .expression e => e.documented_iff
  | .result (some e) => e.documented_iff
  | .branch test yes none => documented_append test.documented_iff yes.documented_iff
  | .branch test yes (some no) =>
    documented_append test.documented_iff (documented_append yes.documented_iff no.documented_iff)
  | .block body => documentedStatements_iff body
  | .foreign _ _ => ⟨nofun, fun h => nomatch h.1⟩

end

end Trellis.Script
