import Wayfinder.Text.Escaped

/-!
# Quoted names in messages

A name inside an error message is written between double quotes. A double quote and a backslash
are preceded by a backslash; NUL, tab, carriage return and line feed are written `\0`, `\t`, `\r`
and `\n`; every other character that `isEscaped` picks (controls, invisible and combining
characters, unassigned code points) is written `\u{…}` with its code point in lowercase
hexadecimal; all other characters, non-ASCII ones included, stand as they are.
-/

namespace Wayfinder.Text

/-- Lowercase hexadecimal digits of `n`, without leading zeros. -/
def hexDigits (n : Nat) : List Char :=
  let digit (d : Nat) : Char := if d < 10 then Char.ofNat (48 + d) else Char.ofNat (87 + d)
  if n < 16 then [digit n] else hexDigits (n / 16) ++ [digit (n % 16)]
termination_by n
decreasing_by omega

/-- The written form of one character inside quotes. -/
def escapeChar (c : Char) : List Char :=
  if c = '"' then ['\\', '"']
  else if c = '\\' then ['\\', '\\']
  else if c = '\n' then ['\\', 'n']
  else if c = '\r' then ['\\', 'r']
  else if c = '\t' then ['\\', 't']
  else if c.toNat = 0 then ['\\', '0']
  else if isEscaped c then ['\\', 'u', '\x7b'] ++ hexDigits c.toNat ++ ['\x7d']
  else [c]

/-- `s` between double quotes, escaped as described above. -/
def quoted (s : String) : String :=
  String.ofList ('"' :: s.toList.flatMap escapeChar ++ ['"'])

end Wayfinder.Text
