import Wayfinder.Binary.Unpack

/-!
# Exact remainders of doubles

The remainder of a division truncated toward zero is always a double itself, so it is computed
exactly from the two magnitudes: both are put on the grid of the smaller exponent, where the
remainder is one division of naturals. The Euclidean remainder adds the divisor's magnitude to a
negative result, in double arithmetic.
-/

namespace Wayfinder.Binary

/-- The remainder of `x` by `y` with the sign of `x`: `x - n · y` for the integer `n` nearest to
`x / y` toward zero. A NaN operand, an infinite `x` or a zero `y` give NaN, an infinite `y` gives
`x`. -/
def fmod (x y : Float) : Float :=
  match unpack x, unpack y with
  | .finite sx mx qx _, .finite _ my qy _ =>
    if my = 0 then 0.0 / 0.0
    else if mx = 0 then x
    else
      let e := min qx qy
      let a := mx * Nat.pow 2 (qx - e).toNat
      let b := my * Nat.pow 2 (qy - e).toNat
      compose sx (a % b) e
  | .finite _ _ _ _, .infinite _ => x
  | _, _ => 0.0 / 0.0

/-- The Euclidean remainder: the truncated remainder, moved up by `|y|` when it is negative. -/
def remEuclid (x y : Float) : Float :=
  let r := fmod x y
  if r < 0.0 then r + y.abs else r

end Wayfinder.Binary
