import Trellis.Fault
import Trellis.Value

/-!
# Members of members

Reading and replacing what lies below a value at a list of keys. A replacement gives a new member
a place in an object and nowhere else: whatever the keys pass through has to be there, and so has
a place in an array.

* `Value.at?`: what lies there.
* `Value.replace`: the value with something else there, or the reason why nothing can be, from the
  inside out: what becomes of a member is put into the value. Namespaces are written in this way.
* `Value.store`: the same from the outside in. A `Value.Focus` goes down the keys and carries what
  will become of the whole. Parameters are written in this way.
-/

namespace Trellis

/-- Why nothing can be put below a value. -/
inductive Misplaced where
  | absent (key : String)
  | outside (index : String)
  | noContainer (key kind : String)
  deriving DecidableEq, Repr

namespace Value

/-- What lies below a value, or the first key that leads nowhere. -/
def at? : Value → List String → Except String Value
  | v, [] => .ok v
  | v, key :: keys =>
    match v.member? key with
    | some w => w.at? keys
    | none => .error key

/-- The value with its member `key` replaced, a new member of an object going last. -/
def replaceMember (v : Value) (key : String) (w : Value) : Except Misplaced Value :=
  match v with
  | object members => .ok (object (Members.assign members key w))
  | array items =>
    match Number.index? key with
    | some i => if i < items.length then .ok (array (items.set i w)) else .error (.outside key)
    | none => .error (.outside key)
  | v => .error (.noContainer key v.kind)

/-- The value with `w` below it at the given keys. -/
def replace : Value → List String → Value → Except Misplaced Value
  | _, [], w => .ok w
  | v, [key], w => v.replaceMember key w
  | v, key :: keys, w =>
    match v.member? key with
    | none => .error (.absent key)
    | some inner => do
      let inner ← inner.replace keys w
      v.replaceMember key inner

/-- A value inside another one, and what becomes of the whole if something takes its place. -/
structure Focus where
  value : Value
  whole : Value → Value

namespace Focus

/-- The whole value itself. -/
def start (v : Value) : Focus := ⟨v, id⟩

/-- A member of the value in focus. -/
def member? (f : Focus) (key : String) : Option Focus :=
  match f.value with
  | object members =>
    (Members.get? members key).map fun w =>
      ⟨w, fun x => f.whole (object (Members.assign members key x))⟩
  | array items =>
    (Number.index? key).bind fun i => items[i]?.map fun w =>
      ⟨w, fun x => f.whole (array (items.set i x))⟩
  | _ => none

/-- Goes on to a member, which has to be there. -/
def enter (f : Focus) (key : String) : Except Misplaced Focus :=
  match f.member? key with
  | some inner => .ok inner
  | none => .error (.absent key)

/-- The whole with `x` as a member of the value in focus: an object takes a new one, an array has to
have the place. -/
def assign (f : Focus) (key : String) (x : Value) : Except Misplaced Value :=
  match f.value with
  | object members => .ok (f.whole (object (Members.assign members key x)))
  | array _ =>
    match f.member? key with
    | some place => .ok (place.whole x)
    | none => .error (.outside key)
  | v => .error (.noContainer key v.kind)

end Focus

/-- The value with `x` stored below it at the given keys: all but the last one lead to what is to
hold `x`. -/
def store (v : Value) (keys : List String) (x : Value) : Except Misplaced Value :=
  match keys.getLast? with
  | none => .ok x
  | some last => do
    let holder ← keys.dropLast.foldlM Focus.enter (Focus.start v)
    holder.assign last x

end Value

end Trellis
