/-!
# Rounding to a fixed number of places

A nonnegative double `m · 2 ^ q` written with `p` places is the natural nearest to
`m · 2 ^ q · 10 ^ p`, with an exact half going to the even neighbour. `roundHalfEven` is that
rounding of a quotient of naturals.
-/

namespace Wayfinder.Decimal

/-- The natural nearest to `num / den`; an exact half goes to the even one. -/
def roundHalfEven (num den : Nat) : Nat :=
  let q := num / den
  let r := num % den
  if 2 * r < den then q
  else if den < 2 * r then q + 1
  else if q % 2 = 0 then q else q + 1

/-- `m · 2 ^ q` in units of `10 ^ (-places)`, rounded half to even. -/
def fixedUnits (m : Nat) (q : Int) (places : Nat) : Nat :=
  roundHalfEven (m * Nat.pow 2 q.toNat * Nat.pow 10 places) (Nat.pow 2 (-q).toNat)

end Wayfinder.Decimal
