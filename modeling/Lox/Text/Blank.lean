/-!
# Blank characters

The characters with the property White_Space of the Unicode character database, and texts
without them at their ends.

* `Text.blankRanges` — the ranges of the property, ascending.
* `Text.isBlank` — membership.
* `Text.trim` — a text without the blank characters at both ends.
-/

namespace Lox.Text

/-- The code points with the property White_Space: first and last of each range. -/
def blankRanges : List (Nat × Nat) :=
  [(0x9, 0xD), (0x20, 0x20), (0x85, 0x85), (0xA0, 0xA0), (0x1680, 0x1680), (0x2000, 0x200A),
    (0x2028, 0x2029), (0x202F, 0x202F), (0x205F, 0x205F), (0x3000, 0x3000)]

/-- The character has the property White_Space. -/
def isBlank (c : Char) : Bool :=
  blankRanges.any fun r => decide (r.1 ≤ c.toNat) && decide (c.toNat ≤ r.2)

/-- The text without the blank characters at its ends. -/
def trim (text : String) : String :=
  String.ofList ((text.toList.dropWhile isBlank).reverse.dropWhile isBlank).reverse

end Lox.Text
