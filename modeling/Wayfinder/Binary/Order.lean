import Wayfinder.Binary.Unpack

/-!
# Orders and bounds on doubles

`totalKey` places every double, NaN included, on the integers: negative NaNs first, then the
negative numbers down to `-0.0`, then `+0.0`, the positive numbers and the positive NaNs. Sorting
by it is the IEEE total order. `minNum` and `maxNum` ignore a NaN operand, and `clampTo` keeps a
NaN, as the arithmetic of routing costs expects.
-/

namespace Wayfinder.Binary

/-- Position of `x` in the IEEE total order. -/
def totalKey (x : Float) : Int :=
  let bits := x.toBits.toNat
  if Nat.pow 2 63 ≤ bits then -((bits - Nat.pow 2 63 : Nat) : Int) - 1 else bits

/-- Comparison in the IEEE total order. -/
def totalCmp (x y : Float) : Ordering :=
  compare (totalKey x) (totalKey y)

/-- The smaller of two doubles, or the other operand when one is NaN. -/
def minNum (x y : Float) : Float :=
  if x.isNaN then y else if y.isNaN then x else if y < x then y else x

/-- The larger of two doubles, or the other operand when one is NaN. -/
def maxNum (x y : Float) : Float :=
  if x.isNaN then y else if y.isNaN then x else if x < y then y else x

/-- `x` moved into `[lo, hi]`; a NaN stays NaN. -/
def clampTo (x lo hi : Float) : Float :=
  if x < lo then lo else if hi < x then hi else x

end Wayfinder.Binary
