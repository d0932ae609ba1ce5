import Trellis.Expr
import Trellis.Json.Serializer
import Trellis.Decimal.Reader
import Trellis.Text.Blank

/-!
# Values

What flows through schemas, scopes, expressions and rendered nodes.

* `Value.member?`: an absent member is `none`, a present null is not.
* `Value.same`: equality. Objects are equal whatever the order of their members, a number that is
  none differs from itself, and a function equals only its own copies.
* `Value.text`: the value as text content.
* `Value.toJson`: the value as a document.
* `Value.serialize`: the calls the value makes to a serializer, without a document; `Value.built?`
  and `Value.serialized` are what two of them make of the calls.
-/

namespace Trellis

/-- A place in which names are looked up. -/
abbrev ScopeId := Nat

/-- The parameters of one call of a lambda. -/
abbrev LocalId := Nat

/-- A function: one of the host's, or a lambda with the parameters around it and its scope. -/
inductive Callable where
  | host (id : Nat) (name : String)
  | lambda (id : Nat) (params : List String) (body : Body) (locals : List LocalId)
    (scope : ScopeId)

namespace Callable

/-- What tells functions apart. -/
def id : Callable → Nat
  | host id _ => id
  | lambda id _ _ _ _ => id

/-- The name a function goes by. -/
def name : Callable → String
  | host _ name => name
  | lambda .. => "lambda"

end Callable

/-- A value. -/
inductive Value where
  | null
  | bool (b : Bool)
  | number (x : Float)
  | string (s : String)
  | array (items : List Value)
  | object (members : List (String × Value))
  | function (f : Callable)
  deriving Inhabited

namespace Value

/-- The empty object. -/
def empty : Value := object []

/-- A whole number. -/
def ofNat (n : Nat) : Value :=
  number (Float.ofNat n)

/-- The constant as a value. -/
def ofLiteral : Literal → Value
  | .null => null
  | .bool b => bool b
  | .number x => number x
  | .string s => string s

/-- The word for the kind of a value. -/
def kind : Value → String
  | null => "null"
  | bool _ => "boolean"
  | number _ => "number"
  | string _ => "string"
  | array _ => "array"
  | object _ => "object"
  | function _ => "function"

/-- Whether a value is null. -/
def isNull : Value → Bool
  | null => true
  | _ => false

/-- Whether a value counts as true: all but null, false, zero, no number and the empty text. -/
def truthy : Value → Bool
  | null => false
  | bool b => b
  | number x => x != 0 && !x.isNaN
  | string s => !s.isEmpty
  | _ => true

/-- A member of an object by its name, or of an array by its place. -/
def member? : Value → String → Option Value
  | object members, key => Members.get? members key
  | array items, key => (Number.index? key).bind fun i => items[i]?
  | _, _ => none

mutual

/-- Whether two values are equal. -/
def same : Value → Value → Bool
  | null, null => true
  | bool a, bool b => a == b
  | number x, number y => x == y
  | string s, string t => s == t
  | array xs, array ys => sameItems xs ys
  | object m, object n => m.length == n.length && sameMembers m n
  | function f, function g => f.id == g.id
  | _, _ => false

/-- Whether two lists are equal item by item. -/
def sameItems : List Value → List Value → Bool
  | [], [] => true
  | v :: vs, w :: ws => same v w && sameItems vs ws
  | _, _ => false

/-- Whether every member is equal to the one of that name in `n`. -/
def sameMembers : List (String × Value) → List (String × Value) → Bool
  | [], _ => true
  | (name, v) :: rest, n =>
    (match Members.get? n name with
      | some w => same v w
      | none => false) && sameMembers rest n

end

instance : BEq Value := ⟨same⟩

mutual

/-- The value as a document: functions and numbers JSON cannot say are null. -/
def toJson : Value → Json
  | null => .null
  | bool b => .bool b
  | number x =>
    match Number.whole? x with
    | some i => .integer i
    | none => if (Binary.ofFloat? x).isSome then .number x else .null
  | string s => .string s
  | array items => .array (jsonItems items)
  | object members => .object (Members.ofList (jsonMembers members))
  | function _ => .null

/-- Each item as a document. -/
def jsonItems : List Value → List Json
  | [] => []
  | v :: rest => toJson v :: jsonItems rest

/-- Each member as a document. -/
def jsonMembers : List (String × Value) → List (String × Json)
  | [] => []
  | (name, v) :: rest => (name, toJson v) :: jsonMembers rest

end

section

variable {σ : Type} (S : Serializer σ)

mutual

/-- The calls of a value, made without a document: a function is like null. -/
def serialize : Value → σ → Option σ
  | null, s => S .unit s
  | bool b, s => S (.bool b) s
  | number x, s =>
    match Number.whole? x with
    | some i => S (.integer i) s
    | none => S (.real x) s
  | string t, s => S (.string t) s
  | array items, s => do
    let s ← S (.sequence items.length) s
    let s ← serializeItems items s
    S .endSequence s
  | object members, s => do
    let s ← S (.map members.length) s
    let s ← serializeMembers members s
    S .endMap s
  | function _, s => S .unit s

/-- The calls of each item. -/
def serializeItems : List Value → σ → Option σ
  | [], s => some s
  | v :: rest, s => do
    let s ← S .element s
    let s ← serialize v s
    serializeItems rest s

/-- The calls of each member. -/
def serializeMembers : List (String × Value) → σ → Option σ
  | [], s => some s
  | (name, v) :: rest, s => do
    let s ← S (.entry name) s
    let s ← serialize v s
    serializeMembers rest s

end

end

/-- The document that the calls of the value build. -/
def built? (v : Value) : Option Json :=
  (v.serialize Json.builder .start).bind (·.done)

/-- The text that the calls of the value write. -/
def written? (v : Value) : Option String :=
  (v.serialize Json.writer .start).map (·.text)

/-- The text of the value as it serializes itself. -/
def serialized (v : Value) : String :=
  v.written?.getD ""

/-- The value as text content: null is empty, arrays and objects are compact JSON. -/
def text : Value → String
  | null => ""
  | bool b => if b then "true" else "false"
  | number x => Number.text x
  | string s => s
  | v@(array _) => v.toJson.text
  | v@(object _) => v.toJson.text
  | function f => "[function " ++ f.name ++ "]"

mutual

/-- The value a document holds. -/
def ofJson : Json → Value
  | .null => null
  | .bool b => bool b
  | .number x => number x
  | .integer i => number (Float.ofInt i)
  | .string s => string s
  | .array items => array (ofJsonItems items)
  | .object members => object (ofJsonMembers members)

/-- Each item as a value. -/
def ofJsonItems : List Json → List Value
  | [] => []
  | j :: rest => ofJson j :: ofJsonItems rest

/-- Each member as a value. -/
def ofJsonMembers : List (String × Json) → List (String × Value)
  | [] => []
  | (name, j) :: rest => (name, ofJson j) :: ofJsonMembers rest

end

end Value

end Trellis
