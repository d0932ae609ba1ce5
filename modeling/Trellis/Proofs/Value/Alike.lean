import Trellis.Proofs.Acts
import Trellis.Value.Operators
import Trellis.Value.Update

/-!
# Values up to functions

Two values are alike if they differ in functions only, and functions in the same place are related
by some `F`. If `F` tells functions apart as their numbers do, then no operator and no access to a
member tells alike values apart.

* `Value.Alike`: the relation; `Value.Alike.refl` for values without functions (`Value.Plain`).
* `Value.Alike.same_eq`: equality of values gives the same answer for alike values.
* `BinaryOp.apply_alike`, `Value.Alike.read`, `Value.Alike.replace`: operators, reading and
  replacing members.
-/

namespace Trellis

namespace Value

mutual

/-- No function is in the value. -/
def Plain : Value → Prop
  | array items => PlainItems items
  | object members => PlainMembers members
  | function _ => False
  | _ => True

/-- No function is in the items. -/
def PlainItems : List Value → Prop
  | [] => True
  | v :: rest => Plain v ∧ PlainItems rest

/-- No function is in the members. -/
def PlainMembers : List (String × Value) → Prop
  | [] => True
  | (_, v) :: rest => Plain v ∧ PlainMembers rest

end

mutual

/-- Values that differ in functions only, which `F` relates. -/
inductive Alike (F : Callable → Callable → Prop) : Value → Value → Prop
  | null : Alike F null null
  | bool (b : Bool) : Alike F (bool b) (bool b)
  | number (x : Float) : Alike F (number x) (number x)
  | string (s : String) : Alike F (string s) (string s)
  | array {vs ws : List Value} (h : AlikeItems F vs ws) : Alike F (array vs) (array ws)
  | object {m n : List (String × Value)} (h : AlikeMembers F m n) : Alike F (object m) (object n)
  | function {f g : Callable} (h : F f g) : Alike F (function f) (function g)

/-- Lists of values that are alike item by item. -/
inductive AlikeItems (F : Callable → Callable → Prop) : List Value → List Value → Prop
  | nil : AlikeItems F [] []
  | cons {v w : Value} {vs ws : List Value} (h : Alike F v w) (hs : AlikeItems F vs ws) :
    AlikeItems F (v :: vs) (w :: ws)

/-- Members of the same names in the same order, with alike values. -/
inductive AlikeMembers (F : Callable → Callable → Prop) :
    List (String × Value) → List (String × Value) → Prop
  | nil : AlikeMembers F [] []
  | cons (name : String) {v w : Value} {m n : List (String × Value)} (h : Alike F v w)
    (hs : AlikeMembers F m n) : AlikeMembers F ((name, v) :: m) ((name, w) :: n)

end

variable {F : Callable → Callable → Prop}

mutual

/-- A value without functions is alike to itself, whatever functions are compared by. -/
theorem Alike.refl : ∀ {v : Value}, v.Plain → Alike F v v
  | .null, _ => .null
  | .bool b, _ => .bool b
  | .number x, _ => .number x
  | .string s, _ => .string s
  | .array _, h => .array (AlikeItems.refl h)
  | .object _, h => .object (AlikeMembers.refl h)

theorem AlikeItems.refl : ∀ {vs : List Value}, PlainItems vs → AlikeItems F vs vs
  | [], _ => .nil
  | _ :: _, h => .cons (Alike.refl h.1) (AlikeItems.refl h.2)

theorem AlikeMembers.refl : ∀ {m : List (String × Value)}, PlainMembers m → AlikeMembers F m m
  | [], _ => .nil
  | (name, _) :: _, h => .cons name (Alike.refl h.1) (AlikeMembers.refl h.2)

end

mutual

/-- Values alike stay so if more functions are related. -/
theorem Alike.mono {G : Callable → Callable → Prop} (hFG : ∀ f g, F f g → G f g) :
    ∀ {v w : Value}, Alike F v w → Alike G v w
  | _, _, .null => .null
  | _, _, .bool b => .bool b
  | _, _, .number x => .number x
  | _, _, .string s => .string s
  | _, _, .array hs => .array (hs.mono hFG)
  | _, _, .object hs => .object (hs.mono hFG)
  | _, _, .function h => .function (hFG _ _ h)

theorem AlikeItems.mono {G : Callable → Callable → Prop} (hFG : ∀ f g, F f g → G f g) :
    ∀ {vs ws : List Value}, AlikeItems F vs ws → AlikeItems G vs ws
  | _, _, .nil => .nil
  | _, _, .cons h hs => .cons (h.mono hFG) (hs.mono hFG)

theorem AlikeMembers.mono {G : Callable → Callable → Prop} (hFG : ∀ f g, F f g → G f g) :
    ∀ {m n : List (String × Value)}, AlikeMembers F m n → AlikeMembers G m n
  | _, _, .nil => .nil
  | _, _, .cons name h hs => .cons name (h.mono hFG) (hs.mono hFG)

end

mutual

/-- Values with the same functions are the same. -/
theorem Alike.eq : ∀ {v w : Value}, Alike Eq v w → v = w
  | _, _, .null => rfl
  | _, _, .bool _ => rfl
  | _, _, .number _ => rfl
  | _, _, .string _ => rfl
  | _, _, .array hs => congrArg array hs.eq
  | _, _, .object hs => congrArg object hs.eq
  | _, _, .function h => congrArg function h

theorem AlikeItems.eq : ∀ {vs ws : List Value}, AlikeItems Eq vs ws → vs = ws
  | _, _, .nil => rfl
  | _, _, .cons h hs => by rw [h.eq, hs.eq]

theorem AlikeMembers.eq : ∀ {m n : List (String × Value)}, AlikeMembers Eq m n → m = n
  | _, _, .nil => rfl
  | _, _, .cons _ h hs => by rw [h.eq, hs.eq]

end

mutual

theorem Alike.self : ∀ v : Value, Alike Eq v v
  | .null => .null
  | .bool b => .bool b
  | .number x => .number x
  | .string s => .string s
  | .array vs => .array (AlikeItems.self vs)
  | .object m => .object (AlikeMembers.self m)
  | .function _ => .function rfl

theorem AlikeItems.self : ∀ vs : List Value, AlikeItems Eq vs vs
  | [] => .nil
  | v :: vs => .cons (Alike.self v) (AlikeItems.self vs)

theorem AlikeMembers.self : ∀ m : List (String × Value), AlikeMembers Eq m m
  | [] => .nil
  | (name, v) :: m => .cons name (Alike.self v) (AlikeMembers.self m)

end

/-! ### Items and members -/

theorem AlikeItems.length_eq : ∀ {vs ws : List Value}, AlikeItems F vs ws → vs.length = ws.length
  | _, _, .nil => rfl
  | _, _, .cons _ hs => by simp [hs.length_eq]

theorem AlikeItems.getElem? : ∀ {vs ws : List Value}, AlikeItems F vs ws → ∀ i : Nat,
    Option.Rel (Alike F) vs[i]? ws[i]?
  | _, _, .nil, i => by simp
  | _, _, .cons h _, 0 => by simpa using Option.Rel.some h
  | _, _, .cons _ hs, i + 1 => by simpa using hs.getElem? i

theorem AlikeItems.set {v w : Value} (h : Alike F v w) : ∀ {vs ws : List Value},
    AlikeItems F vs ws → ∀ i : Nat, AlikeItems F (vs.set i v) (ws.set i w)
  | _, _, .nil, _ => .nil
  | _, _, .cons _ hs, 0 => .cons h hs
  | _, _, .cons h' hs, i + 1 => .cons h' (hs.set h i)

theorem AlikeItems.getLastD {v w : Value} (h : Alike F v w) :
    ∀ {vs ws : List Value}, AlikeItems F vs ws → Alike F (vs.getLastD v) (ws.getLastD w)
  | _, _, .nil => h
  | _, _, .cons h' hs => by
    rw [List.getLastD_cons, List.getLastD_cons]
    exact AlikeItems.getLastD h' hs

theorem AlikeMembers.length_eq : ∀ {m n : List (String × Value)}, AlikeMembers F m n →
    m.length = n.length
  | _, _, .nil => rfl
  | _, _, .cons _ _ hs => by simp [hs.length_eq]

theorem AlikeMembers.get? (name : String) : ∀ {m n : List (String × Value)}, AlikeMembers F m n →
    Option.Rel (Alike F) (Members.get? m name) (Members.get? n name)
  | _, _, .nil => .none
  | _, _, .cons key h hs => by
    rw [Members.get?_cons, Members.get?_cons]
    split
    · exact .some h
    · exact hs.get? name

theorem AlikeMembers.assign (name : String) {v w : Value} (h : Alike F v w) :
    ∀ {m n : List (String × Value)}, AlikeMembers F m n →
      AlikeMembers F (Members.assign m name v) (Members.assign n name w)
  | _, _, .nil => .cons name h .nil
  | _, _, .cons key h' hs => by
    rw [Members.assign_cons, Members.assign_cons]
    split
    · exact .cons key h hs
    · exact .cons key h' (hs.assign name h)

theorem AlikeMembers.extend : ∀ {m n : List (String × Value)}, AlikeMembers F m n →
    ∀ {m' n' : List (String × Value)}, AlikeMembers F m' n' →
      AlikeMembers F (Members.extend m' m) (Members.extend n' n)
  | _, _, .nil, _, _, h' => h'
  | _, _, .cons name h hs, _, _, h' => hs.extend (h'.assign name h)

theorem AlikeMembers.ofList {m n : List (String × Value)} (h : AlikeMembers F m n) :
    AlikeMembers F (Members.ofList m) (Members.ofList n) :=
  h.extend .nil

/-- `F` relates functions of one name, and tells functions apart as their numbers do. -/
structure Faithful (F : Callable → Callable → Prop) : Prop where
  name : ∀ {f g}, F f g → f.name = g.name
  id : ∀ {f g f' g'}, F f g → F f' g' → (f.id = f'.id ↔ g.id = g'.id)

/-! ### What does not look at functions -/

section Blind

variable {v w : Value} (h : Alike F v w)

include h

theorem Alike.isNull_eq : v.isNull = w.isNull := by cases h <;> rfl

theorem Alike.truthy_eq : v.truthy = w.truthy := by cases h <;> rfl

theorem Alike.typeWord_eq : v.typeWord = w.typeWord := by cases h <;> rfl

theorem Alike.isString_eq : v.isString = w.isString := by cases h <;> rfl

theorem Alike.toNumber_eq : v.toNumber = w.toNumber := by cases h <;> rfl

theorem Alike.asKey_eq : v.asKey = w.asKey := by
  cases h <;> rfl

end Blind

mutual

/-- A document does not say which functions were in it. -/
theorem Alike.toJson_eq : ∀ {v w : Value}, Alike F v w → v.toJson = w.toJson
  | _, _, .null => rfl
  | _, _, .bool _ => rfl
  | _, _, .number _ => rfl
  | _, _, .string _ => rfl
  | _, _, .array hs => by rw [toJson, toJson, hs.jsonItems_eq]
  | _, _, .object hs => by rw [toJson, toJson, hs.jsonMembers_eq]
  | _, _, .function _ => by rw [toJson, toJson]

theorem AlikeItems.jsonItems_eq : ∀ {vs ws : List Value}, AlikeItems F vs ws →
    jsonItems vs = jsonItems ws
  | _, _, .nil => rfl
  | _, _, .cons h hs => by rw [jsonItems, jsonItems, h.toJson_eq, hs.jsonItems_eq]

theorem AlikeMembers.jsonMembers_eq : ∀ {m n : List (String × Value)}, AlikeMembers F m n →
    jsonMembers m = jsonMembers n
  | _, _, .nil => rfl
  | _, _, .cons _ h hs => by rw [jsonMembers, jsonMembers, h.toJson_eq, hs.jsonMembers_eq]

end

/-! ### Members below a value -/

section Members

variable {v w : Value}

theorem Alike.member? (h : Alike F v w) (key : String) :
    Option.Rel (Alike F) (v.member? key) (w.member? key) := by
  cases h
  case array hs =>
    rw [Value.member?, Value.member?]
    cases Number.index? key with
    | none => exact .none
    | some i => exact hs.getElem? i
  case object hs => exact hs.get? key
  all_goals exact .none

theorem Alike.getD {x y : Option Value} (h : Option.Rel (Alike F) x y) :
    Alike F (x.getD .null) (y.getD .null) := by
  cases h with
  | some h => exact h
  | none => exact .null

theorem Alike.at? (keys : List String) : ∀ {v w : Value}, Alike F v w →
    SameOutcome (Alike F) (v.at? keys) (w.at? keys) := by
  induction keys with
  | nil => intro v w h; exact h
  | cons key keys ih =>
    intro v w h
    have hm := h.member? key
    rw [Value.at?, Value.at?]
    generalize v.member? key = x at hm
    generalize w.member? key = y at hm
    cases hm with
    | none => rfl
    | some hin => exact ih hin

theorem Alike.read (h : Alike F v w) (key : String) :
    SameOutcome (Alike F) (v.read key) (w.read key) := by
  have hm := Alike.getD (h.member? key)
  cases h
  case null => rfl
  case string s => exact Alike.refl (by split <;> trivial)
  case array hs =>
    rw [Value.read, Value.read, hs.length_eq]
    split
    · exact .number _
    · exact hm
  all_goals exact hm

theorem Alike.readAll (keys : List String) : ∀ {v w : Value}, Alike F v w →
    SameOutcome (Alike F) (v.readAll keys) (w.readAll keys) := by
  induction keys with
  | nil => intro v w h; exact h
  | cons key keys ih =>
    intro v w h
    rw [Value.readAll, Value.readAll]
    exact (h.read key).bind fun _ _ h => ih h

theorem Alike.replaceMember (h : Alike F v w) (key : String) {a b : Value} (hab : Alike F a b) :
    SameOutcome (Alike F) (v.replaceMember key a) (w.replaceMember key b) := by
  cases h
  case array hs =>
    rw [Value.replaceMember, Value.replaceMember, hs.length_eq]
    split
    · split
      · exact .array (hs.set hab _)
      · rfl
    · rfl
  case object hs => exact Alike.object (hs.assign key hab)
  all_goals rfl

theorem Alike.replace {a b : Value} (hab : Alike F a b) (keys : List String) :
    ∀ {v w : Value}, Alike F v w → SameOutcome (Alike F) (v.replace keys a) (w.replace keys b) := by
  induction keys with
  | nil => intro v w _; exact hab
  | cons key keys ih =>
    intro v w h
    cases keys with
    | nil => exact h.replaceMember key hab
    | cons next keys =>
      have hm := h.member? key
      rw [Value.replace, Value.replace]
      · generalize v.member? key = x at hm
        generalize w.member? key = y at hm
        cases hm with
        | none => rfl
        | some hin => exact (ih hin).bind fun _ _ hin => h.replaceMember key hin
      all_goals simp

end Members

/-! ### Operators -/

mutual

/-- Equality gives the same answer for alike values. -/
theorem Alike.same_eq (hF : Faithful F) : ∀ {v w a b : Value}, Alike F v w → Alike F a b →
    v.same a = w.same b
  | _, _, _, _, .array hs, .array hs' => by rw [same, same, hs.same_eq hF hs']
  | _, _, _, _, .object hs, .object hs' => by
    rw [same, same, hs.length_eq, hs'.length_eq, hs.same_eq hF hs']
  | _, _, _, _, .function h, .function h' => by
    rw [same, same, Bool.eq_iff_iff]
    simpa using hF.id h h'
  | _, _, _, _, .null, h' | _, _, _, _, .bool _, h' | _, _, _, _, .number _, h'
  | _, _, _, _, .string _, h' => by cases h' <;> simp [same]
  | _, _, _, _, .array _, .null | _, _, _, _, .array _, .bool _ | _, _, _, _, .array _, .number _
  | _, _, _, _, .array _, .string _ | _, _, _, _, .array _, .object _
  | _, _, _, _, .array _, .function _ => by simp [same]
  | _, _, _, _, .object _, .null | _, _, _, _, .object _, .bool _
  | _, _, _, _, .object _, .number _ | _, _, _, _, .object _, .string _
  | _, _, _, _, .object _, .array _ | _, _, _, _, .object _, .function _ => by simp [same]
  | _, _, _, _, .function _, .null | _, _, _, _, .function _, .bool _
  | _, _, _, _, .function _, .number _ | _, _, _, _, .function _, .string _
  | _, _, _, _, .function _, .array _ | _, _, _, _, .function _, .object _ => by simp [same]

theorem AlikeItems.same_eq (hF : Faithful F) : ∀ {vs ws as bs : List Value},
    AlikeItems F vs ws → AlikeItems F as bs → sameItems vs as = sameItems ws bs
  | _, _, _, _, .nil, .nil => rfl
  | _, _, _, _, .nil, .cons _ _ => by simp [sameItems]
  | _, _, _, _, .cons _ _, .nil => by simp [sameItems]
  | _, _, _, _, .cons h hs, .cons h' hs' => by
    rw [sameItems, sameItems, h.same_eq hF h', hs.same_eq hF hs']

theorem AlikeMembers.same_eq (hF : Faithful F) : ∀ {m n m' n' : List (String × Value)},
    AlikeMembers F m n → AlikeMembers F m' n' → sameMembers m m' = sameMembers n n'
  | _, _, _, _, .nil, _ => by rw [sameMembers, sameMembers]
  | _, _, m', n', .cons name h hs, h' => by
    -- members are compared with those of the same name on the other side
    have hg := h'.get? name
    rw [sameMembers, sameMembers, hs.same_eq hF h']
    generalize Members.get? m' name = x at hg
    generalize Members.get? n' name = y at hg
    cases hg with
    | none => rfl
    | some hv => simp only [h.same_eq hF hv]

end

section Operators

variable (hF : Faithful F)

include hF

theorem Alike.text_eq {v w : Value} (h : Alike F v w) : v.text = w.text := by
  have hj := h.toJson_eq
  cases h
  case function h => simp only [text, hF.name h]
  case array => exact congrArg Json.text hj
  case object => exact congrArg Json.text hj
  all_goals rfl

theorem Alike.joined_eq {v w : Value} (h : Alike F v w) : v.joined = w.joined := by
  have ht := h.text_eq hF
  cases h
  case null => rfl
  all_goals exact ht

theorem Alike.looseSame_eq {v w a b : Value} (h : Alike F v w) (h' : Alike F a b) :
    v.looseSame a = w.looseSame b := by
  have hs := h.same_eq hF h'
  cases h <;> cases h' <;> first | rfl | exact hs

end Operators

end Value

section Operators

open Value

variable {F : Callable → Callable → Prop} {v w a b : Value}

theorem Arithmetic.apply_alike (hF : Faithful F) (op : Arithmetic) (h : Alike F v w)
    (h' : Alike F a b) : Alike F (op.apply v a) (op.apply w b) := by
  unfold Arithmetic.apply
  rw [h.isString_eq, h'.isString_eq, h.joined_eq hF, h'.joined_eq hF, h.toNumber_eq,
    h'.toNumber_eq]
  split
  · exact .string _
  · exact .number _

theorem Comparison.apply_alike (hF : Faithful F) (op : Comparison) (h : Alike F v w)
    (h' : Alike F a b) : op.apply v a = op.apply w b := by
  have hs := h.same_eq hF h'
  have hl := h.looseSame_eq hF h'
  have ho : op.ordered v a = op.ordered w b := by cases h <;> cases h' <;> rfl
  cases op
  case eq => exact hl
  case notEq => exact congrArg (!·) hl
  case strictEq => exact hs
  case strictNotEq => exact congrArg (!·) hs
  all_goals exact ho

theorem BinaryOp.apply_alike (hF : Faithful F) (op : BinaryOp) (h : Alike F v w)
    (h' : Alike F a b) : Alike F (op.apply v a) (op.apply w b) := by
  cases op with
  | arithmetic op => exact Arithmetic.apply_alike hF op h h'
  | comparison op =>
    rw [BinaryOp.apply, BinaryOp.apply, Comparison.apply_alike hF op h h']
    exact .bool _

theorem UnaryOp.apply_alike (op : UnaryOp) (h : Alike F v w) :
    Alike F (op.apply v) (op.apply w) := by
  cases op
  · rw [UnaryOp.apply, UnaryOp.apply, h.truthy_eq]; exact .bool _
  · rw [UnaryOp.apply, UnaryOp.apply, h.toNumber_eq]; exact .number _
  · rw [UnaryOp.apply, UnaryOp.apply, h.toNumber_eq]; exact .number _
  · rw [UnaryOp.apply, UnaryOp.apply, h.typeWord_eq]; exact .string _

theorem LogicalOp.keeps_alike (op : LogicalOp) (h : Alike F v w) :
    op.keeps v = op.keeps w := by
  cases op
  · rw [LogicalOp.keeps, LogicalOp.keeps, h.truthy_eq]
  · exact h.truthy_eq
  · rw [LogicalOp.keeps, LogicalOp.keeps, h.isNull_eq]

end Operators

end Trellis
