import ContractInterface.Text.Ranges

/-!
# Blanks

White space of Unicode together with the four information separators U+001C to U+001F, and the
removal of blanks from both ends of a text.
-/

namespace ContractInterface.Text

def blankRanges : Ranges :=
  [(0x9, 0xD), (0x1C, 0x20), (0x85, 0x85), (0xA0, 0xA0), (0x1680, 0x1680), (0x2000, 0x200A),
   (0x2028, 0x2029), (0x202F, 0x202F), (0x205F, 0x205F), (0x3000, 0x3000)]

/-- Whether `c` is white space or an information separator. -/
def isBlank (c : Char) : Bool := blankRanges.has c.toNat

/-- The blanks of ASCII proper: tab, line feed, vertical tab, form feed, return and space. -/
def isAsciiBlank (c : Char) : Bool :=
  c.toNat == 32 || decide (9 ≤ c.toNat) && decide (c.toNat ≤ 13)

/-- The text between the blanks at its ends. -/
def trimWith (p : Char → Bool) (s : List Char) : List Char :=
  ((s.dropWhile p).reverse.dropWhile p).reverse

def trim (s : List Char) : List Char := trimWith isBlank s

end ContractInterface.Text
