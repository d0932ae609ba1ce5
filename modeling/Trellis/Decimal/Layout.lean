import Trellis.Decimal.Shortest

/-!
# The text of a number

A number is written with its shortest decimal. The two layouts differ in where positional notation
ends, in whether a whole number keeps a fraction, and in which of two equally near decimals is
written.

* `Number.whole?`: the number as an integer. Both layouts write a whole number below `10 ^ 15` as
  one, negative zero as `0`.
* `Number.text`: a number on its own, in text and in property names. Never an exponent.
* `Number.json?`: a number inside JSON, none for those JSON cannot say.
-/

namespace Trellis

namespace Decimal

/-- The digits as text. -/
def digitText (d : Decimal) : String :=
  toString d.digits

/-- The exponent of the leading digit. -/
def scale (d : Decimal) : Int :=
  (digitCount d.digits : Int) - 1 + d.exponent

/-- Without an exponent: zeros fill the places up to the point or behind it. -/
def positional (d : Decimal) : String :=
  let digits := d.digitText.toList
  if 0 ≤ d.exponent then String.ofList (digits ++ List.replicate d.exponent.toNat '0')
  else
    let places := (-d.exponent).toNat
    let padded := List.replicate (places + 1 - digits.length) '0' ++ digits
    let whole := padded.length - places
    String.ofList (padded.take whole ++ '.' :: padded.drop whole)

/-- One digit, the point, the other digits, and the exponent with its sign. -/
def scientific (d : Decimal) : String :=
  let sign := if d.scale < 0 then "e-" else "e+"
  let digits := d.digitText.toList
  let head := match digits with
    | [] => ""
    | [c] => c.toString
    | c :: cs => c.toString ++ "." ++ String.ofList cs
  head ++ sign ++ toString d.scale.natAbs

/-- Positional from `10 ^ -5` up to `10 ^ 16`, with a fraction in any case. -/
def jsonText (d : Decimal) : String :=
  if -5 ≤ d.scale ∧ d.scale < 16 then
    if 0 ≤ d.exponent then d.positional ++ ".0" else d.positional
  else d.scientific

end Decimal

namespace Number

/-- Whole numbers from this one on are not written as integers. -/
def integerLimit : Nat := Nat.pow 10 15

/-- The magnitude as an integer, if the number is whole and below the limit. -/
def integral? (b : Binary) : Option Nat :=
  b.integer?.filter (· < integerLimit)

/-- The number as an integer, if it is whole and its magnitude below the limit. Negative zero is
zero. -/
def whole? (x : Float) : Option Int :=
  (Binary.ofFloat? x).bind fun b =>
    (integral? b).map fun n => if Binary.isNegative x then -(n : Int) else n

/-- The sign of a number other than zero. -/
def sign (x : Float) : String :=
  if Binary.isNegative x then "-" else ""

/-- A number on its own. -/
def text (x : Float) : String :=
  match whole? x with
  | some i => toString i
  | none =>
    match Binary.ofFloat? x with
    | none => if x.isNaN then "NaN" else sign x ++ "Infinity"
    | some b => sign x ++ (b.shortest .up).positional

/-- A number inside JSON as one with a fraction or an exponent. -/
def real? (x : Float) : Option String :=
  (Binary.ofFloat? x).map fun b => sign x ++ (b.shortest .even).jsonText

/-- A number inside JSON. -/
def json? (x : Float) : Option String :=
  match whole? x with
  | some i => some (toString i)
  | none => real? x

end Number

end Trellis
