/-!
# The shortest decimal of a number

A finite number is `m · 2 ^ q`. The reals that round to it form an interval around it, with its
ends if and only if `m` is even. Of the decimals in the interval those with the fewest digits are
short, and of these the nearest to the number is taken. A `Tie` says which of two equally near
ones that is.

* `Binary.ofFloat?`: sign, `m` and `q` of a finite number.
* `Binary.shortest`: the shortest decimal of `m · 2 ^ q`.
-/

namespace Trellis

/-- `digits · 10 ^ exponent`. -/
structure Decimal where
  digits : Nat
  exponent : Int
  deriving DecidableEq, Repr

/-- Which of two equally near decimals is taken. -/
inductive Decimal.Tie where
  | up
  | even
  deriving DecidableEq, Repr

/-- `mantissa · 2 ^ exponent`, the mantissa as it is stored. -/
structure Binary where
  mantissa : Nat
  exponent : Int
  deriving DecidableEq, Repr

/-- The fraction bits of a stored number. -/
def Binary.fractionUnit : Nat := Nat.pow 2 52

/-- Whether the sign bit is set. -/
def Binary.isNegative (x : Float) : Bool :=
  x.toBits.toNat / Nat.pow 2 63 == 1

/-- The magnitude of a finite number. -/
def Binary.ofFloat? (x : Float) : Option Binary :=
  let bits := x.toBits.toNat
  let fraction := bits % Binary.fractionUnit
  let stored := bits / Binary.fractionUnit % 2048
  if stored == 2047 then none
  else if stored == 0 then some ⟨fraction, -1074⟩
  else some ⟨Binary.fractionUnit + fraction, (stored : Int) - 1075⟩

namespace Binary

/-- The number as an integer, if it is one. -/
def integer? (b : Binary) : Option Nat :=
  if 0 ≤ b.exponent then some (b.mantissa * Nat.pow 2 b.exponent.toNat)
  else
    let unit := Nat.pow 2 (-b.exponent).toNat
    if b.mantissa % unit = 0 then some (b.mantissa / unit) else none

/-- Half the distance to the number below is half as large just above a power of two. -/
def isNarrow (b : Binary) : Bool :=
  b.mantissa == Binary.fractionUnit && b.exponent != -1074

end Binary

/-- A positive real `num / den` and the interval of the reals that round to it, in the same unit:
from `low / den` to `high / den`. -/
structure Rounding where
  num : Nat
  low : Nat
  high : Nat
  den : Nat
  closed : Bool

/-- The interval of a number: half way to each neighbour. -/
def Binary.interval (b : Binary) : Rounding :=
  let m := b.mantissa
  let low := if b.isNarrow then 4 * m - 1 else 4 * m - 2
  let q := b.exponent - 2
  let closed := m % 2 == 0
  if 0 ≤ q then
    let unit := Nat.pow 2 q.toNat
    ⟨4 * m * unit, low * unit, (4 * m + 2) * unit, 1, closed⟩
  else ⟨4 * m, low, 4 * m + 2, Nat.pow 2 (-q).toNat, closed⟩

/-- The point `digits · 10 ^ exponent` against an interval, both over one denominator: the pair
of the scaled point and the factor of the interval's ends. -/
def Rounding.scaled (i : Rounding) (d : Decimal) : Nat × Nat :=
  if 0 ≤ d.exponent then (d.digits * Nat.pow 10 d.exponent.toNat * i.den, 1)
  else (d.digits * i.den, Nat.pow 10 (-d.exponent).toNat)

/-- Whether a decimal rounds to the number of the interval. -/
def Rounding.admits (i : Rounding) (d : Decimal) : Bool :=
  let (p, f) := i.scaled d
  if i.closed then i.low * f ≤ p && p ≤ i.high * f else i.low * f < p && p < i.high * f

/-- How far a decimal is from the number, in units that depend on the exponent only. -/
def Rounding.distance (i : Rounding) (d : Decimal) : Nat :=
  let (p, f) := i.scaled d
  let v := i.num * f
  if p ≤ v then v - p else p - v

/-- The greatest multiple of `10 ^ exponent` that is not above the number. -/
def Rounding.below (i : Rounding) (exponent : Int) : Decimal :=
  if 0 ≤ exponent then ⟨i.num / (i.den * Nat.pow 10 exponent.toNat), exponent⟩
  else ⟨i.num * Nat.pow 10 (-exponent).toNat / i.den, exponent⟩

/-- The number's neighbour on the grid of `10 ^ exponent` that rounds to it, the nearer if both
do. -/
def Rounding.onGrid (tie : Decimal.Tie) (i : Rounding) (exponent : Int) : Option Decimal :=
  let a := i.below exponent
  let b : Decimal := ⟨a.digits + 1, exponent⟩
  match i.admits a, i.admits b with
  | false, false => none
  | true, false => some a
  | false, true => some b
  | true, true =>
    let da := i.distance a
    let db := i.distance b
    if da < db then some a
    else if db < da then some b
    else match tie with
      | .up => some b
      | .even => if a.digits % 2 = 0 then some a else some b

/-- Number of decimal digits. -/
def Decimal.digitCount (n : Nat) : Nat :=
  (Nat.toDigits 10 n).length

/-- The exponent of the leading digit of a positive `num / den`. -/
def leadingExponent (num den : Nat) : Int :=
  if den ≤ num then (Decimal.digitCount (num / den) : Int) - 1
  else
    let guess : Int := (Decimal.digitCount num : Int) - (Decimal.digitCount den : Int)
    if den ≤ num * Nat.pow 10 (-guess).toNat then guess else guess - 1

/-- Searches the grids from coarse to fine, at most `fuel` of them. -/
def Rounding.search (tie : Decimal.Tie) (i : Rounding) : Nat → Int → Decimal
  | 0, exponent => i.below exponent
  | fuel + 1, exponent =>
    match i.onGrid tie exponent with
    | some d => d
    | none => i.search tie fuel (exponent - 1)

/-- Drops trailing zeros, at most `fuel` of them. -/
def Decimal.stripped : Nat → Decimal → Decimal
  | 0, d => d
  | fuel + 1, d =>
    if d.digits ≠ 0 ∧ d.digits % 10 = 0 then stripped fuel ⟨d.digits / 10, d.exponent + 1⟩ else d

/-- The shortest decimal of a number; seventeen digits always suffice. -/
def Binary.shortest (tie : Decimal.Tie) (b : Binary) : Decimal :=
  if b.mantissa = 0 then ⟨0, 0⟩
  else
    let i := b.interval
    (i.search tie 18 (leadingExponent i.num i.den)).stripped 20

end Trellis
