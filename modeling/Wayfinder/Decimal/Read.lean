import Wayfinder.Binary.FromDecimal
import Wayfinder.Decimal.Shortest

/-!
# Reading numbers from text

The number fields of road data are read by two small grammars. An unsigned integer is an optional
`+` and at least one digit, and must fit its width; in a table field it is hexadecimal after a
leading `0x`. Digits are taken from left to right, so an
overflow is reported before a later bad character. A decimal number is an optional sign and either
`inf`, `infinity` or `nan` in any case, or digits with at most one point and at least one digit,
then optionally `e` or `E`, a sign and at least one digit; it is rounded to the nearest double.
-/

namespace Wayfinder.Decimal

/-- Why a text is not an unsigned integer of the asked width. -/
inductive IntSyntaxError where
  | empty
  | invalidDigit
  | tooLarge
deriving Repr, DecidableEq

/-- The text of an `IntSyntaxError`. -/
def IntSyntaxError.message : IntSyntaxError → String
  | .empty => "cannot parse integer from empty string"
  | .invalidDigit => "invalid digit found in string"
  | .tooLarge => "number too large to fit in target type"

/-- The value of `c` as a digit in base `radix` (at most 36): `0`-`9`, then letters of either
case. -/
def digitValue (radix : Nat) (c : Char) : Option Nat :=
  let v :=
    if c.isDigit then c.toNat - 48
    else if 'a' ≤ c && c ≤ 'z' then c.toNat - 87
    else if 'A' ≤ c && c ≤ 'Z' then c.toNat - 55
    else radix
  if v < radix then some v else none

/-- Accumulates digits in base `radix` from left to right, refusing a value of `limit` or more. -/
def readDigits (radix limit : Nat) : Nat → List Char → Except IntSyntaxError Nat
  | acc, [] => .ok acc
  | acc, c :: rest =>
    match digitValue radix c with
    | some d =>
      let next := acc * radix + d
      if next < limit then readDigits radix limit next rest else .error .tooLarge
    | none => .error .invalidDigit

/-- Reads an unsigned integer in base `radix` below `limit`. -/
def readUnsigned (radix limit : Nat) (s : String) : Except IntSyntaxError Nat :=
  match s.toList with
  | [] => .error .empty
  | '+' :: [] => .error .invalidDigit
  | '+' :: rest => readDigits radix limit 0 rest
  | cs => readDigits radix limit 0 cs

/-- Reads an unsigned integer below `limit` from a table field: in base 16 after a leading `0x`,
in base 10 otherwise. -/
def readField (limit : Nat) (s : String) : Except IntSyntaxError Nat :=
  if s.startsWith "0x" then readUnsigned 16 limit (String.ofList (s.toList.drop 2))
  else readUnsigned 10 limit s

/-- Why a text is not a decimal number. -/
inductive FloatSyntaxError where
  | empty
  | invalid
deriving Repr, DecidableEq

/-- The text of a `FloatSyntaxError`. -/
def FloatSyntaxError.message : FloatSyntaxError → String
  | .empty => "cannot parse float from empty string"
  | .invalid => "invalid float literal"

/-- The value of a run of decimal digits. -/
def digitsValue (cs : List Char) : Nat :=
  cs.foldl (fun acc c => acc * 10 + (c.toNat - 48)) 0

/-- Reads the unsigned part of a decimal number: `inf`, `infinity`, `nan`, or
`digits[.digits][e[sign]digits]`. -/
def readMagnitude (negative : Bool) (cs : List Char) : Except FloatSyntaxError Float :=
  let lower := String.ofList (cs.map Char.toLower)
  if lower = "inf" || lower = "infinity" then
    .ok (if negative then -1.0 / 0.0 else 1.0 / 0.0)
  else if lower = "nan" then .ok (0.0 / 0.0)
  else
    let whole := cs.takeWhile Char.isDigit
    let afterWhole := cs.drop whole.length
    let (frac, afterFrac) := match afterWhole with
      | '.' :: rest => (rest.takeWhile Char.isDigit, rest.drop (rest.takeWhile Char.isDigit).length)
      | rest => ([], rest)
    if whole.isEmpty && frac.isEmpty then .error .invalid
    else
      let expPart : Except FloatSyntaxError Int := match afterFrac with
        | [] => .ok 0
        | e :: rest =>
          if e = 'e' || e = 'E' then
            let (neg, ds) := match rest with
              | '-' :: ds => (true, ds)
              | '+' :: ds => (false, ds)
              | ds => (false, ds)
            if !ds.isEmpty && ds.all Char.isDigit then
              .ok (if neg then -(digitsValue ds : Int) else digitsValue ds)
            else .error .invalid
          else .error .invalid
      match expPart with
      | .error e => .error e
      | .ok ex =>
        -- Exponents far outside the range of doubles saturate before the digits matter.
        let ex := max (min ex 100000) (-100000)
        .ok (Binary.ofDecimal negative (digitsValue (whole ++ frac)) (ex - frac.length))

/-- Reads a decimal number and rounds it to the nearest double. -/
def readFloat (s : String) : Except FloatSyntaxError Float :=
  match s.toList with
  | [] => .error .empty
  | '-' :: rest => readMagnitude true rest
  | '+' :: rest => readMagnitude false rest
  | cs => readMagnitude false cs

end Wayfinder.Decimal
