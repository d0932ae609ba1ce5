import Trellis.Decimal.Reader

/-!
# The remainder of a division

What is left of `x` when a whole multiple of `y` is taken from it toward zero. Both numbers are
integers over one power of two, so the remainder is exact and again a number.
-/

namespace Trellis

namespace Binary

/-- A magnitude as an integer multiple of `2 ^ q`, for `q` not above its exponent. -/
def multiple (b : Binary) (q : Int) : Nat :=
  b.mantissa * Nat.pow 2 (b.exponent - q).toNat

/-- The stored form of `n · 2 ^ q`. -/
def scaled (n : Nat) (q : Int) : Nat :=
  if n = 0 then 0
  else if 0 ≤ q then nearest (n * Nat.pow 2 q.toNat) 1
  else nearest n (Nat.pow 2 (-q).toNat)

end Binary

namespace Number

/-- The remainder of `x` by `y`, with the sign of `x`; none of infinity or by zero. -/
def rem (x y : Float) : Float :=
  match Binary.ofFloat? x, Binary.ofFloat? y with
  | some a, some b =>
    if b.mantissa = 0 then nan
    else
      let q := min a.exponent b.exponent
      Binary.pack (Binary.isNegative x) (Binary.scaled (a.multiple q % b.multiple q) q)
  | some _, none => if y.isNaN then nan else x
  | none, _ => nan

end Number

end Trellis
