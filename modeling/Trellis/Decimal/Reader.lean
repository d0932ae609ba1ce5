import Trellis.Decimal.Shortest

/-!
# Numbers from text

* `Decimal.toFloat`: the nearest number to a decimal, an exact half going to the even neighbour.
* `Number.read?`: reads the decimal notation, with the words for infinity and for no number.
* `Number.index?`: reads a place in a list.
-/

namespace Trellis

/-- The number with the given sign and fields. -/
def Binary.pack (negative : Bool) (magnitude : Nat) : Float :=
  Float.ofBits (UInt64.ofNat (magnitude + if negative then Nat.pow 2 63 else 0))

/-- The stored form of infinity. -/
def Binary.infinity : Nat := 2047 * Binary.fractionUnit

/-- `num / den` to the nearest integer, an exact half to the even one. -/
def nearestEven (num den : Nat) : Nat :=
  let n := num / den
  let rest := num % den
  if 2 * rest < den then n
  else if den < 2 * rest then n + 1
  else if n % 2 = 0 then n else n + 1

/-- The stored form of the number nearest to a positive `num / den`. -/
def Binary.nearest (num den : Nat) : Nat :=
  let guess : Int := (Nat.log2 num : Int) - (Nat.log2 den : Int) - 52
  let below := if 0 ≤ guess then num < Binary.fractionUnit * (den * Nat.pow 2 guess.toNat)
    else num * Nat.pow 2 (-guess).toNat < Binary.fractionUnit * den
  let q := max (-1074) (if below then guess - 1 else guess)
  let m := if 0 ≤ q then nearestEven num (den * Nat.pow 2 q.toNat)
    else nearestEven (num * Nat.pow 2 (-q).toNat) den
  -- A carry into the next power of two lands on the next stored exponent by itself.
  let magnitude := if m < Binary.fractionUnit then m
    else ((q + 1074).toNat) * Binary.fractionUnit + m
  min magnitude Binary.infinity

namespace Decimal

/-- The number nearest to a decimal. -/
def toFloat (negative : Bool) (d : Decimal) : Float :=
  if d.digits = 0 then Binary.pack negative 0
  else
    let scale := (digitCount d.digits : Int) + d.exponent
    if 310 < scale then Binary.pack negative Binary.infinity
    else if scale < -330 then Binary.pack negative 0
    else if 0 ≤ d.exponent then
      Binary.pack negative (Binary.nearest (d.digits * Nat.pow 10 d.exponent.toNat) 1)
    else Binary.pack negative (Binary.nearest d.digits (Nat.pow 10 (-d.exponent).toNat))

/-- The number a row of digits stands for. -/
def ofDigits (cs : List Char) : Nat :=
  cs.foldl (fun n c => 10 * n + (c.toNat - 48)) 0

/-- Whether a character is a decimal digit. -/
def isDigit (c : Char) : Bool :=
  '0' ≤ c && c ≤ '9'

/-- A sign in front and the rest. -/
def signed : List Char → Bool × List Char
  | '-' :: cs => (true, cs)
  | '+' :: cs => (false, cs)
  | cs => (false, cs)

/-- The exponent written at the end of a number, zero if there is none. -/
def exponent? : List Char → Option Int
  | [] => some 0
  | c :: cs =>
    if c = 'e' ∨ c = 'E' then
      let (negative, digits) := signed cs
      if digits.isEmpty || !digits.all isDigit then none
      else some (if negative then -(ofDigits digits : Int) else ofDigits digits)
    else none

/-- Digits with at most one point among or around them, then perhaps an exponent. -/
def read? (cs : List Char) : Option Decimal :=
  let whole := cs.takeWhile isDigit
  let rest := cs.dropWhile isDigit
  let (fraction, rest) := match rest with
    | '.' :: more => (more.takeWhile isDigit, more.dropWhile isDigit)
    | _ => ([], rest)
  if whole.isEmpty && fraction.isEmpty then none
  else (exponent? rest).map fun e => ⟨ofDigits (whole ++ fraction), e - fraction.length⟩

end Decimal

namespace Number

/-- Infinity. -/
def infinity : Float :=
  Binary.pack false Binary.infinity

/-- No number. -/
def nan : Float :=
  Binary.pack false (Binary.infinity + Nat.pow 2 51)

/-- Reads a number in decimal notation, or one of the words `inf`, `infinity` and `nan` in any
case, with a sign or without. -/
def read? (cs : List Char) : Option Float :=
  let (negative, body) := Decimal.signed cs
  let word := String.ofList (body.map Char.toLower)
  if word = "inf" ∨ word = "infinity" then some (Binary.pack negative Binary.infinity)
  else if word = "nan" then some nan
  else (Decimal.read? body).map (Decimal.toFloat negative)

/-- Places in a list are below this bound. -/
def indexLimit : Nat := Nat.pow 2 64

/-- Reads a place in a list: digits, perhaps behind a plus sign. -/
def index? (key : String) : Option Nat :=
  let digits := match key.toList with
    | '+' :: cs => cs
    | cs => cs
  if digits.isEmpty || !digits.all Decimal.isDigit then none
  else
    let n := Decimal.ofDigits digits
    if n < indexLimit then some n else none

end Number

end Trellis
