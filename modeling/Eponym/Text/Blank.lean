/-
# Blank characters

The Unicode property White_Space.  A name may hold no such character, and an
entry made of nothing else counts as empty.  Neither the zero-width space nor
the four ASCII separators 0x1C to 0x1F have the property.
-/

namespace Eponym.Text

/-- The code points with the property White_Space, as inclusive ranges. -/
def blankRanges : List (Nat × Nat) :=
  [(0x9, 0xD), (0x20, 0x20), (0x85, 0x85), (0xA0, 0xA0), (0x1680, 0x1680), (0x2000, 0x200A),
    (0x2028, 0x2029), (0x202F, 0x202F), (0x205F, 0x205F), (0x3000, 0x3000)]

/-- Whether a character is white space anywhere in Unicode. -/
def isBlank (c : Char) : Bool :=
  blankRanges.any fun r => r.1 ≤ c.toNat && c.toNat ≤ r.2

/-- The property holds of twenty-five code points. -/
example : (blankRanges.map fun r => r.2 + 1 - r.1).sum = 25 := by decide

/-- Whether a text has no character but blank ones. -/
def isBlankText (s : String) : Bool := s.toList.all isBlank

/-- Whether a text has a blank character anywhere. -/
def containsBlank (s : String) : Bool := s.toList.any isBlank

end Eponym.Text
