/-
  Blank characters and trimming.

  BLANK means the Unicode property `White_Space`: twenty-five characters, among them the tab, the
  next-line character U+0085, the no-break space and the ideographic space.  `trim` cuts blanks off
  both ends of a text and leaves the inside alone.
-/

namespace Cohort.Text

/-- The ranges of the property `White_Space`, ends included. -/
def blankRanges : List (Nat × Nat) :=
  [(0x09, 0x0D), (0x20, 0x20), (0x85, 0x85), (0xA0, 0xA0), (0x1680, 0x1680), (0x2000, 0x200A),
    (0x2028, 0x2029), (0x202F, 0x202F), (0x205F, 0x205F), (0x3000, 0x3000)]

/-- Whether a character is blank. -/
def isBlank (c : Char) : Bool := blankRanges.any fun r => r.1 ≤ c.toNat && c.toNat ≤ r.2

/-- Cut blanks off both ends of a list of characters. -/
def trimList (cs : List Char) : List Char :=
  ((cs.dropWhile isBlank).reverse.dropWhile isBlank).reverse

/-- Cut blanks off both ends of a text. -/
def trim (s : String) : String := String.ofList (trimList s.toList)

example : (blankRanges.map fun r => r.2 + 1 - r.1).sum = 25 := by decide
example : trimList ['\t', ' ', '4', ' ', '2', '\u3000'] = ['4', ' ', '2'] := by decide
example : trimList [' ', '\u00a0'] = [] := by decide

end Cohort.Text
