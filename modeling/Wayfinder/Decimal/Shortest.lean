/-!
# Shortest decimals that read back

A positive double `v = m · 2 ^ q` is read back from every real strictly between the midpoints to
its two neighbours, and from the midpoints themselves when `m` is even (a tie goes to the even
significand). `shortest` tries grids of one, two, … seventeen significant digits; on each grid only
the two grid points around `v` can lie in that interval, and the first grid with a hit gives the
answer, the nearer of two hits, and of two equally near ones the even. All comparisons are between
naturals, scaled by one common factor per grid.
-/

namespace Wayfinder.Decimal

/-- The decimal `digits · 10 ^ exponent`. -/
structure DecimalForm where
  digits : Nat
  exponent : Int
deriving Repr, DecidableEq

/-- Number of decimal digits of `n`; zero has one. -/
def decimalLength (n : Nat) : Nat :=
  if n < 10 then 1 else decimalLength (n / 10) + 1
termination_by n
decreasing_by omega

/-- Removes trailing zero digits, raising the exponent for each. -/
def DecimalForm.trim (d : DecimalForm) : DecimalForm :=
  if h : d.digits ≠ 0 ∧ d.digits % 10 = 0 then
    DecimalForm.trim ⟨d.digits / 10, d.exponent + 1⟩
  else d
termination_by d.digits
decreasing_by omega

/-- The exponent `E` with `10 ^ E ≤ m · 2 ^ q < 10 ^ (E + 1)`, for `m ≠ 0`. -/
def leadingExponent (m : Nat) (q : Int) : Int :=
  let num := m * Nat.pow 2 q.toNat
  let den := Nat.pow 2 (-q).toNat
  let c : Int := (decimalLength num : Int) - decimalLength den
  if den * Nat.pow 10 c.toNat ≤ num * Nat.pow 10 (-c).toNat then c else c - 1

/-- The grid point `d · 10 ^ k` that reads back as `m · 2 ^ q`, if one of the two around the value
does. Everything is scaled by `10 ^ (-k) · 2 ^ (2 - q)` (negative parts dropped), so the value, the
ends of its interval and the grid step are naturals. -/
def gridHit (m : Nat) (q : Int) (boundary : Bool) (k : Int) : Option Nat :=
  let scale := Nat.pow 2 (q - 2).toNat * Nat.pow 10 (-k).toNat
  let v := 4 * m * scale
  let lo := (4 * m - (if boundary then 1 else 2)) * scale
  let hi := (4 * m + 2) * scale
  let step := Nat.pow 10 k.toNat * Nat.pow 2 (2 - q).toNat
  let inside (c : Nat) : Bool :=
    if m % 2 = 0 then lo ≤ c && c ≤ hi else lo < c && c < hi
  let d := v / step
  let below := inside (d * step)
  let above := inside ((d + 1) * step)
  if below && above then
    let gapBelow := v - d * step
    let gapAbove := (d + 1) * step - v
    if gapBelow < gapAbove then some d
    else if gapAbove < gapBelow then some (d + 1)
    else if d % 2 = 0 then some d else some (d + 1)
  else if below then some d
  else if above then some (d + 1)
  else none

/-- The shortest decimal that reads back as the positive double `m · 2 ^ q`; `boundary` says that
the next smaller double is half as far away as the next larger one. Zero gives `0 · 10 ^ 0`. -/
def shortest (m : Nat) (q : Int) (boundary : Bool) : DecimalForm :=
  if m = 0 then ⟨0, 0⟩
  else
    let e := leadingExponent m q
    let tries : List Int := (List.range 17).map fun (i : Nat) => e - Int.ofNat i
    match tries.findSome? fun k => (gridHit m q boundary k).map fun d => (DecimalForm.mk d k) with
    | some d => d.trim
    | none => (DecimalForm.mk (m * Nat.pow 2 q.toNat / Nat.pow 2 (-q).toNat) 0).trim

end Wayfinder.Decimal
