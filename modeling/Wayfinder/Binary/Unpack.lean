/-!
# Binary64 values as exact numbers

A double is read off its 64 stored bits: a sign, an exponent field and a fraction. Every finite
double is `m · 2 ^ q` for a natural `m < 2 ^ 53`, so decimal printing, exact remainders and the
total order below all work on `m` and `q` in `Nat` and `Int` arithmetic and never round.
-/

namespace Wayfinder.Binary

/-- The class of a double together with its exact magnitude. -/
inductive Unpacked where
  | nan
  | infinite (negative : Bool)
  /-- The magnitude is `m · 2 ^ q`; `boundary` says that the next smaller double lies at half the
  usual distance, which happens when the fraction is zero above the smallest exponent. -/
  | finite (negative : Bool) (m : Nat) (q : Int) (boundary : Bool)
deriving Repr, DecidableEq

/-- Number of fraction bits of a double. -/
def fractionBits : Nat := 52

/-- Reads the stored fields of `x`. -/
def unpack (x : Float) : Unpacked :=
  let bits := x.toBits.toNat
  let negative := decide (Nat.pow 2 63 ≤ bits)
  let field : Nat := (bits / Nat.pow 2 fractionBits) % Nat.pow 2 11
  let fraction : Nat := bits % Nat.pow 2 fractionBits
  if field = 2047 then
    if fraction = 0 then .infinite negative else .nan
  else if field = 0 then
    .finite negative fraction (-1074) false
  else
    .finite negative (Nat.pow 2 fractionBits + fraction) ((field : Int) - 1075)
      (fraction = 0 && field > 1)

/-- The sign bit of `x`, set also for `-0.0` and for a NaN with its sign bit on. -/
def signBit (x : Float) : Bool :=
  decide (Nat.pow 2 63 ≤ x.toBits.toNat)

/-- The double `m · 2 ^ q`, exact whenever `m < 2 ^ 53` and the value lies in the range of
doubles. -/
def compose (negative : Bool) (m : Nat) (q : Int) : Float :=
  let magnitude := Float.scaleB (Float.ofNat m) q
  if negative then -magnitude else magnitude

end Wayfinder.Binary
