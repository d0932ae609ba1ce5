import Trellis.Proofs.Script.Paths

/-!
# Compound assignment

A compound assignment to a parameter, or to static members below a name, abbreviates a plain one. The
name is looked up once, the right side is evaluated once, and what the abbreviation reads is read
before that in either form, so a right side that assigns or fails does the same in both.

* `Target.toExpr`, `Target.InSight`: what is assigned to as an expression, and the targets that are
  meant.
* `AssignOp.combine_arithmetic`, `AssignOp.combine_logical`: what is stored, by both forms.
* `assignTo_arithmetic`, `assignTo_logical`: assignments by both forms.
* `Expr.compound_abbreviates`: expressions.
-/

namespace Trellis

open Act

/-! ### Targets -/

/-- What is assigned to, as the expression that reads it. -/
def Target.toExpr : Target → Expr
  | .name id => .name id
  | .member object property => .member object property

/-- A name, perhaps with static members below it. -/
def Expr.IsChain : Expr → Prop
  | .name _ => True
  | .member owner (.static _) => owner.IsChain
  | _ => False

/-- A parameter of one of the calls, or static members below a name. -/
def Target.InSight (s : Session) (calls : List LocalId) : Target → Prop
  | .name id => (s.held? id calls).isSome
  | .member object property => (Expr.member object property).IsChain

section Targets

variable (call : Callable → List Value → Act Value) (p : Place)

theorem Expr.chain_concat (root : String) (keys : List String) (key : String) :
    Expr.chain root (keys ++ [key]) = .member (Expr.chain root keys) (.static key) := by
  rw [Expr.chain, List.foldl_append]
  rfl

/-- A chain of static members is evaluated as a target without doing anything. -/
theorem Expr.IsChain.evalChain : ∀ {e : Expr}, e.IsChain →
    ∃ root keys, e = Expr.chain root keys ∧ e.evalChain call p = pure (root, keys)
  | .name id, _ => ⟨id, [], rfl, by rw [Expr.evalChain]⟩
  | .member owner (.static key), h => by
    obtain ⟨root, keys, rfl, hchain⟩ := Expr.IsChain.evalChain (e := owner) h
    refine ⟨root, keys ++ [key], (Expr.chain_concat root keys key).symm, ?_⟩
    rw [Expr.evalChain, hchain]
    simp only [Property.eval, pure_bind]
  | .member _ (.computed _), h | .literal _, h | .template _ _, h | .array _, h | .object _, h
  | .unary _ _, h | .binary _ _ _, h | .logical _ _ _, h | .conditional _ _ _, h
  | .assign _ _ _, h | .call _ _, h | .lambda _ _, h | .sequence _, h => h.elim

/-- A target that is meant is a name with static members below it, and without any it is a parameter
in sight. -/
theorem Target.InSight.eval {s : Session} {t : Target} (h : t.InSight s p.calls) :
    ∃ root keys, t.toExpr = Expr.chain root keys ∧ t.eval call p = pure (root, keys) ∧
      (keys ≠ [] ∨ (s.held? root p.calls).isSome) := by
  cases t with
  | name id => exact ⟨id, [], rfl, by rw [Target.eval], .inr h⟩
  | member owner property =>
    cases property with
    | computed key => exact h.elim
    | static key =>
      obtain ⟨root, keys, rfl, hchain⟩ := Expr.IsChain.evalChain call p (e := owner) h
      refine ⟨root, keys ++ [key], (Expr.chain_concat root keys key).symm, ?_, .inl (by simp)⟩
      rw [Target.eval, hchain]
      simp only [Property.eval, pure_bind]

end Targets

/-! ### What is stored -/

/-- An assignment ends by storing a value, or by reading once more if there is none to be stored. -/
def AssignOp.finish (current : Act Value) (store : Value → Act Unit) : Option Value → Act Value
  | none => current
  | some v => do
    store v
    return v

section Storing

variable {current read right : Act Value} {store : Value → Act Unit} {s : Session}
  {r : Except Fault Value}

/-- **Arithmetic**: what is stored is the value of the operation, its left side having been read. -/
theorem AssignOp.combine_arithmetic (hcurrent : current.runOn s = (r, s))
    (hread : read.runOn s = (r, s)) (op : Arithmetic) :
    (AssignOp.combine current right (.arithmetic op)).runOn s =
      (AssignOp.combine current
        (do
          let v ← read
          let w ← right
          return op.apply v w) .assign).runOn s := by
  unfold AssignOp.combine
  simp only [runOn_bind, hcurrent, hread]
  cases r with
  | error e => rfl
  | ok v =>
    simp only
    rcases right.runOn s with ⟨_ | w, t⟩ <;> rfl

/-- **Logic**: if the left side settles the outcome it is read once more and nothing is stored, and
otherwise the right side is. -/
theorem AssignOp.combine_logical (hcurrent : current.runOn s = (r, s))
    (hread : read.runOn s = (r, s)) (op : LogicalOp) :
    (AssignOp.combine current right (.logical op) >>= finish current store).runOn s =
      (do
        let v ← read
        if op.keeps v then return v
        AssignOp.combine current right .assign >>= finish current store).runOn s := by
  unfold AssignOp.combine
  simp only [runOn_bind, hcurrent, hread]
  cases r with
  | error e => rfl
  | ok v =>
    simp only
    cases op.keeps v with
    | true => exact hcurrent
    | false => exact (runOn_bind _ (finish current store) s).symm

end Storing

/-! ### Assigning -/

section Assigning

variable {p : Place} {root : String} {keys : List String} {right : Act Value} {s : Session}

theorem Session.get?_of_held? {name : String} {calls : List LocalId} {id : LocalId} {v : Value}
    (h : s.held? name calls = some (id, v)) :
    Members.get? (s.calls[id]?.getD []) name = some v := by
  obtain ⟨id', -, hid⟩ := List.exists_of_findSome?_eq_some h
  obtain ⟨v', hv, heq⟩ := Option.map_eq_some_iff.1 hid
  cases heq
  exact hv

/-- What lies below a parameter in sight is read as what lies below its name. -/
theorem parameterMember_runOn {id : LocalId} {v : Value}
    (h : s.held? root p.calls = some (id, v)) (keys : List String) :
    (parameterMember id root keys).runOn s = (v.readAll keys, s) ∧
      (p.member root keys).runOn s = (v.readAll keys, s) := by
  have hparams : (parameters id).runOn s = (.ok (s.calls[id]?.getD []), s) := rfl
  constructor
  · unfold parameterMember
    rw [runOn_bind, hparams]
    simp only [Session.get?_of_held? h, Option.getD_some, runOn_ofExcept]
  · unfold Place.member Place.lookup
    simp only [runOn_bind, holder?_runOn, h, runOn_pure, runOn_ofExcept]

/-- Reading below a name changes nothing. -/
theorem Place.member_unchanged (p : Place) (root : String) (keys : List String) (s : Session) :
    (p.member root keys).runOn s = (((p.member root keys).runOn s).1, s) :=
  Prod.ext rfl (p.member_keeps (R := Eq) root keys s).symm

/-- An assignment reads what lies below its name, or does not, and then stores. -/
theorem assignTo_finish (h : keys ≠ [] ∨ (s.held? root p.calls).isSome) :
    ∃ (current : Act Value) (store : Value → Act Unit) (r : Except Fault Value),
      current.runOn s = (r, s) ∧ (p.member root keys).runOn s = (r, s) ∧
      ∀ op right, (assignTo p op root keys right).runOn s =
        (AssignOp.combine current right op >>= AssignOp.finish current store).runOn s := by
  cases hheld : s.held? root p.calls with
  | some found =>
    obtain ⟨id, v⟩ := found
    obtain ⟨hcurrent, hread⟩ := parameterMember_runOn hheld keys
    refine ⟨parameterMember id root keys, storeParameter id root keys, _, hcurrent, hread,
      fun op right => ?_⟩
    rw [assignTo_parameter hheld, assignParameter]
    refine congrArg (fun act : Act Value => act.runOn s) (bind_congr fun stored => ?_)
    cases stored <;> rfl
  | none =>
    have hkeys : keys ≠ [] := h.resolve_right (by simp [hheld])
    have hread := p.member_unchanged root keys s
    refine ⟨p.member root keys, p.store root keys, _, hread, hread, fun op right => ?_⟩
    rw [assignTo_space hheld, assignSpace, if_neg (by simpa using hkeys)]
    refine congrArg (fun act : Act Value => act.runOn s) (bind_congr fun stored => ?_)
    cases stored <;> rfl

/-- **A compound assignment** by arithmetic is the assignment of the operation's value. -/
theorem assignTo_arithmetic (h : keys ≠ [] ∨ (s.held? root p.calls).isSome) (op : Arithmetic)
    (right : Act Value) :
    (assignTo p (.arithmetic op) root keys right).runOn s =
      (assignTo p .assign root keys (do
        let v ← p.member root keys
        let w ← right
        return op.apply v w)).runOn s := by
  obtain ⟨current, store, r, hcurrent, hread, hassign⟩ := assignTo_finish h
  rw [hassign, hassign, runOn_bind, runOn_bind, AssignOp.combine_arithmetic hcurrent hread]

/-- **A logical assignment** is the operation with an assignment on its right. -/
theorem assignTo_logical (h : keys ≠ [] ∨ (s.held? root p.calls).isSome) (op : LogicalOp)
    (right : Act Value) :
    (assignTo p (.logical op) root keys right).runOn s =
      (do
        let v ← p.member root keys
        if op.keeps v then return v
        assignTo p .assign root keys right).runOn s := by
  obtain ⟨current, store, r, hcurrent, hread, hassign⟩ := assignTo_finish h
  rw [hassign, AssignOp.combine_logical hcurrent hread, runOn_bind, runOn_bind, hread]
  cases r with
  | error e => rfl
  | ok v =>
    simp only
    split
    · rfl
    · exact (hassign .assign right).symm

end Assigning

/-! ### Expressions -/

/-- **Compound assignments** abbreviate plain ones. Wherever they are evaluated and whatever their
right side does, `t op= e` comes to what `t = t op e` comes to, and leaves the same session, for a
target that is a parameter or has static members below its name; and `t ||= e`, `t &&= e` and
`t ??= e` what `t || (t = e)`, `t && (t = e)` and `t ?? (t = e)` do. -/
theorem Expr.compound_abbreviates (call : Callable → List Value → Act Value) (p : Place)
    (s : Session) {t : Target} (ht : t.InSight s p.calls) (e : Expr) :
    (∀ op : Arithmetic, ((Expr.assign (.arithmetic op) t e).eval call p).runOn s =
      ((Expr.assign .assign t (.binary (.arithmetic op) t.toExpr e)).eval call p).runOn s) ∧
    ∀ op : LogicalOp, ((Expr.assign (.logical op) t e).eval call p).runOn s =
      ((Expr.logical op t.toExpr (.assign .assign t e)).eval call p).runOn s := by
  obtain ⟨root, keys, hexpr, heval, hsight⟩ := ht.eval call p
  have hassign : ∀ op value, (Expr.assign op t value).eval call p =
      assignTo p op root keys (value.eval call p) := by
    intro op value
    rw [Expr.eval, heval]
    rfl
  constructor
  · intro op
    rw [hassign, hassign, assignTo_arithmetic hsight, Expr.eval, hexpr, Expr.eval_chain]
    rfl
  · intro op
    rw [hassign, assignTo_logical hsight, Expr.eval, hexpr, Expr.eval_chain, hassign]

/-- The lamp's name. -/
def lampName : Target := .member (.name "lamp") (.static "name")

/-- `lamp.name = null`. -/
def unnamed : Expr := .assign .assign lampName (.literal .null)

/-- A right side that takes the lamp's name away is evaluated when the name has been read, in either
form. -/
theorem Expr.compound_abbreviates_lamp : lampName.InSight lampSession [] ∧
    ((Expr.assign (.arithmetic .add) lampName unnamed).eval Callable.call ⟨1, []⟩).runOn
        lampSession =
      ((Expr.assign .assign lampName (.binary (.arithmetic .add) lampName.toExpr unnamed)).eval
        Callable.call ⟨1, []⟩).runOn lampSession ∧
    (((Expr.assign .assign lampName (.binary (.arithmetic .add) lampName.toExpr unnamed)).eval
        Callable.call ⟨1, []⟩).runOn lampSession).1 = .ok (.string "desknull") := by
  have hsight : lampName.InSight lampSession [] := trivial
  have habbreviates :=
    Expr.compound_abbreviates Callable.call ⟨1, []⟩ lampSession hsight unnamed
  exact ⟨hsight, habbreviates.1 .add, rfl⟩

end Trellis
