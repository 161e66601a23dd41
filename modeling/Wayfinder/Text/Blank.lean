/-!
# Blank characters

The Unicode `White_Space` property: the ASCII tab, line feed, vertical tab, form feed, carriage
return and space, the next line control, the no-break spaces, the Ogham space mark, the en quad to
the hair space, the line and paragraph separators, the medium mathematical space and the
ideographic space; 25 characters in all. Names typed by a user are compared after `trimBlank`
removes them from both ends.
-/

namespace Wayfinder.Text

/-- The code point ranges of `White_Space`, as inclusive pairs. -/
def blankRanges : List (Nat × Nat) :=
  [(0x09, 0x0D), (0x20, 0x20), (0x85, 0x85), (0xA0, 0xA0), (0x1680, 0x1680),
   (0x2000, 0x200A), (0x2028, 0x2029), (0x202F, 0x202F), (0x205F, 0x205F), (0x3000, 0x3000)]

/-- Whether `c` has the Unicode `White_Space` property. -/
def isBlank (c : Char) : Bool :=
  blankRanges.any fun r => r.1 ≤ c.toNat && c.toNat ≤ r.2

/-- `s` without its leading and trailing blank characters. -/
def trimBlank (s : String) : String :=
  let cs := (s.toList.dropWhile isBlank).reverse.dropWhile isBlank
  String.ofList cs.reverse

end Wayfinder.Text
