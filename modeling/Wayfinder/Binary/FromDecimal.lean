import Wayfinder.Binary.Unpack

/-!
# Decimals to doubles

`ofDecimal` gives the double nearest to `digits · 10 ^ exponent`, a tie going to the even
significand, and infinity beyond the largest double. The value is put on the binary grid of its own
magnitude (53 significant bits, or the subnormal grid) by one division of naturals, which is then
rounded half to even, so the result is correctly rounded for every input.
-/

namespace Wayfinder.Binary

/-- The natural nearest to `num / den`, a tie going to the even one. -/
def roundQuotient (num den : Nat) : Nat :=
  let q := num / den
  let r := num % den
  if 2 * r < den then q
  else if den < 2 * r then q + 1
  else if q % 2 = 0 then q else q + 1

/-- Number of decimal digits of `n`; zero has one. -/
def digitCount (n : Nat) : Nat :=
  if n < 10 then 1 else digitCount (n / 10) + 1
termination_by n
decreasing_by omega

/-- The double nearest to `±digits · 10 ^ exponent`. -/
def ofDecimal (negative : Bool) (digits : Nat) (exponent : Int) : Float :=
  let signed (x : Float) : Float := if negative then -x else x
  if digits = 0 then signed 0.0
  else if (digitCount digits : Int) + exponent > 310 then signed (1.0 / 0.0)
  else if (digitCount digits : Int) + exponent < -326 then signed 0.0
  else
    let num := digits * Nat.pow 10 exponent.toNat
    let den := Nat.pow 10 (-exponent).toNat
    -- `b` is the exponent of the leading bit: `2 ^ b ≤ num / den < 2 ^ (b + 1)`.
    let guess : Int := (num.log2 : Int) - den.log2
    let b : Int :=
      if num * Nat.pow 2 (-guess).toNat < den * Nat.pow 2 guess.toNat then guess - 1 else guess
    let q : Int := max (b - 52) (-1074)
    let m := roundQuotient (num * Nat.pow 2 (-q).toNat) (den * Nat.pow 2 q.toNat)
    let (m, q) := if m = Nat.pow 2 53 then (Nat.pow 2 52, q + 1) else (m, q)
    if q + 52 > 1023 then signed (1.0 / 0.0) else compose negative m q

end Wayfinder.Binary
