import Trellis.Decimal.Remainder
import Trellis.Fault
import Trellis.Value

/-!
# Operators on values

What each operator makes of its operands. None of them fails; only reading a member of null does.

* `Value.toNumber`: a value as an operand of arithmetic.
* `Arithmetic.apply`: `+` joins texts if one operand is a text, everything else is on numbers.
* `Value.looseSame`: equality that compares texts and truth values with numbers as numbers.
* `Comparison.apply`: two texts are ordered by code points, all else as numbers, and no order holds
  where no number is involved.
* `LogicalOp.keeps`: whether the left operand settles the outcome.
* `Value.read`: a member, or null where there is none.
-/

namespace Trellis

namespace Value

/-- The number a text spells, blanks around it apart. No text at all is zero. -/
def textNumber (s : String) : Float :=
  match Text.trim s.toList with
  | [] => 0
  | cs => (Number.read? cs).getD Number.nan

/-- The value as an operand of arithmetic. -/
def toNumber : Value → Float
  | null => 0
  | bool b => if b then 1 else 0
  | number x => x
  | string s => textNumber s
  | _ => Number.nan

/-- The value as a part of a longer text. -/
def joined : Value → String
  | null => "null"
  | v => v.text

/-- The word `typeof` gives. -/
def typeWord : Value → String
  | null => "undefined"
  | bool _ => "boolean"
  | number _ => "number"
  | string _ => "string"
  | function _ => "function"
  | array _ => "object"
  | object _ => "object"

/-- Whether a value is a text. -/
def isString : Value → Bool
  | string _ => true
  | _ => false

/-- Equality between kinds: a text and a number, or a truth value and anything but null, are
compared as numbers. -/
def looseSame : Value → Value → Bool
  | null, null => true
  | null, _ => false
  | _, null => false
  | v@(string _), w@(number _) => v.toNumber == w.toNumber
  | v@(number _), w@(string _) => v.toNumber == w.toNumber
  | v@(bool _), w => v.toNumber == w.toNumber
  | v, w@(bool _) => v.toNumber == w.toNumber
  | v, w => v.same w

/-- A member of a value: texts and arrays have a length, and a member that is not there is null.
Null has no members. -/
def read (v : Value) (key : String) : Except Fault Value :=
  match v with
  | null => .error (.wrongType ("cannot read properties of null (reading '" ++ key ++ "')"))
  | string s => .ok (if key = "length" then ofNat s.length else null)
  | array items =>
    .ok (if key = "length" then ofNat items.length else ((array items).member? key).getD null)
  | v => .ok ((v.member? key).getD null)

/-- The member of a member and so on. -/
def readAll (v : Value) : List String → Except Fault Value
  | [] => .ok v
  | key :: keys => do
    let w ← v.read key
    w.readAll keys

/-- The name of the member that a value in brackets stands for. -/
def asKey : Value → Except Fault String
  | string s => .ok s
  | number x => .ok (Number.text x)
  | bool b => .ok (if b then "true" else "false")
  | v => .error (.wrongType ("cannot use " ++ v.kind ++ " as a property key"))

end Value

namespace Arithmetic

/-- The operation on numbers. -/
def onNumbers : Arithmetic → Float → Float → Float
  | add, x, y => x + y
  | sub, x, y => x - y
  | mul, x, y => x * y
  | div, x, y => x / y
  | rem, x, y => Number.rem x y

/-- The operation on values. -/
def apply (op : Arithmetic) (v w : Value) : Value :=
  if op = add ∧ (v.isString ∨ w.isString) then .string (v.joined ++ w.joined)
  else .number (op.onNumbers v.toNumber w.toNumber)

end Arithmetic

namespace Comparison

/-- The order of two texts. -/
def onTexts : Comparison → String → String → Bool
  | lt, s, t => s < t
  | le, s, t => s < t || s == t
  | gt, s, t => t < s
  | _, s, t => t < s || s == t

/-- The order of two numbers; false if one of them is none. -/
def onNumbers : Comparison → Float → Float → Bool
  | lt, x, y => x < y
  | le, x, y => x ≤ y
  | gt, x, y => y < x
  | _, x, y => y ≤ x

/-- Two values in order. -/
def ordered (op : Comparison) : Value → Value → Bool
  | .string s, .string t => op.onTexts s t
  | v, w => op.onNumbers v.toNumber w.toNumber

/-- The test on values. -/
def apply (op : Comparison) (v w : Value) : Bool :=
  match op with
  | eq => v.looseSame w
  | notEq => !v.looseSame w
  | strictEq => v.same w
  | strictNotEq => !v.same w
  | op => op.ordered v w

end Comparison

/-- An operator with two operands. -/
def BinaryOp.apply : BinaryOp → Value → Value → Value
  | arithmetic op, v, w => op.apply v w
  | comparison op, v, w => .bool (op.apply v w)

/-- An operator with one operand. -/
def UnaryOp.apply : UnaryOp → Value → Value
  | not, v => .bool (!v.truthy)
  | negate, v => .number (-v.toNumber)
  | plus, v => .number v.toNumber
  | typeof, v => .string v.typeWord

/-- Whether the left operand is the outcome, so that the right one is left alone. -/
def LogicalOp.keeps : LogicalOp → Value → Bool
  | and, v => !v.truthy
  | or, v => v.truthy
  | coalesce, v => !v.isNull

end Trellis
