import Wayfinder.Binary.Unpack
import Wayfinder.Decimal.Shortest
import Wayfinder.Decimal.Fixed

/-!
# Writing doubles as text

Two layouts of the shortest digits are used: `Layout.interchange`, the number text of data
exchanged with other programs (positional for moderate magnitudes with a `.0` on whole numbers,
scientific otherwise), and `Layout.plain`, the text of a number in a message (always positional,
no `.0`). `Float.fixedText` writes a fixed number of places. Non-finite values are written `NaN`,
`inf` and `-inf` everywhere.
-/

namespace Wayfinder.Decimal

/-- How the shortest digits of a double are laid out. -/
structure Layout where
  /-- When `some (lo, hi)`, a number whose point falls after `k` digits is written positionally
  exactly when `lo < k ≤ hi`; when `none`, always. -/
  positional : Option (Int × Int)
  /-- Whether a whole number written positionally ends in `.0`. -/
  pointZero : Bool
  /-- The letter between the significand and the exponent. -/
  exponentMark : String
deriving Repr

/-- Number text for data exchange: positional from `1e-5` up to below `1e16`, whole numbers end in
`.0`, and otherwise one digit before the point and an exponent such as `1e-7` or `1.25e16`. -/
def Layout.interchange : Layout := ⟨some (-5, 16), true, "e"⟩

/-- Number text inside messages: always positional, whole numbers without a point. -/
def Layout.plain : Layout := ⟨none, false, "e"⟩

/-- `n` zeros. -/
def zeros (n : Nat) : String := String.ofList (List.replicate n '0')

/-- Lays out a decimal with its point after `kk = length + exponent` digits. -/
def Layout.render (l : Layout) (d : DecimalForm) : String :=
  let s := (toString d.digits).toList
  let len := s.length
  let kk : Int := len + d.exponent
  let positional := match l.positional with
    | some (lo, hi) => decide (lo < kk ∧ kk ≤ hi)
    | none => true
  if positional then
    if 0 ≤ d.exponent then
      String.ofList s ++ zeros d.exponent.toNat ++ (if l.pointZero then ".0" else "")
    else if 0 < kk then
      String.ofList (s.take kk.toNat) ++ "." ++ String.ofList (s.drop kk.toNat)
    else "0." ++ zeros (-kk).toNat ++ String.ofList s
  else
    let tail := if len > 1 then "." ++ String.ofList (s.drop 1) else ""
    String.ofList (s.take 1) ++ tail ++ l.exponentMark ++ toString (kk - 1)

/-- The words for the values that have no digits. -/
def nonFiniteText : Binary.Unpacked → String
  | .infinite true => "-inf"
  | .infinite false => "inf"
  | _ => "NaN"

end Wayfinder.Decimal

namespace Float

open Wayfinder Wayfinder.Decimal

/-- The shortest digits of `x` laid out by `l`, with a `-` for every negative sign, `-0.0`
included. -/
def shortestText (l : Layout) (x : Float) : String :=
  match Binary.unpack x with
  | .finite neg m q b => (if neg then "-" else "") ++ l.render (shortest m q b)
  | u => nonFiniteText u

/-- `x` rounded half to even to `places` places, with a `-` whenever the sign bit is set. -/
def fixedText (places : Nat) (x : Float) : String :=
  match Binary.unpack x with
  | .finite neg m q _ =>
    let digits := (fixedUnits m q places).repr.toList
    let padded := List.replicate (places + 1 - digits.length) '0' ++ digits
    let whole := padded.take (padded.length - places)
    let frac := padded.drop (padded.length - places)
    (if neg then "-" else "") ++ String.ofList whole ++
      (if places = 0 then "" else "." ++ String.ofList frac)
  | u => nonFiniteText u

end Float

namespace String

/-- `s` preceded by spaces up to `width` characters. -/
def padLeft (width : Nat) (s : String) : String :=
  String.ofList (List.replicate (width - s.length) ' ') ++ s

end String
