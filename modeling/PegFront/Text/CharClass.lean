import PegFront.Text.Alphabetic
import PegFront.Text.Numeric

/-!
# Character classes

The classes the terminals of a grammar are made of. Letters, digits of words and blanks are the
properties of version 17 of the Unicode standard; the ASCII range is decided without the tables.
-/

namespace PegFront.Text

/-- Membership in a table of closed ranges of code points. -/
def inRanges (ranges : List (Nat × Nat)) (c : Char) : Bool :=
  ranges.any fun r => r.1 ≤ c.toNat && c.toNat ≤ r.2

def isAscii (c : Char) : Bool := c.toNat < 0x80

def isAlphabetic (c : Char) : Bool :=
  if isAscii c then c.isAlpha else inRanges alphabeticRanges c

def isAlphanumeric (c : Char) : Bool :=
  if isAscii c then c.isAlphanum else inRanges alphabeticRanges c || inRanges numericRanges c

/-- Ascending closed ranges of the code points with the `White_Space` property. -/
def blankRanges : List (Nat × Nat) := [
  (0x9, 0xD), (0x20, 0x20), (0x85, 0x85), (0xA0, 0xA0), (0x1680, 0x1680), (0x2000, 0x200A),
  (0x2028, 0x2029), (0x202F, 0x202F), (0x205F, 0x205F), (0x3000, 0x3000)]

def isBlank (c : Char) : Bool := inRanges blankRanges c

/-- C0 controls, delete and C1 controls. -/
def isControl (c : Char) : Bool := c.toNat < 0x20 || (0x7F ≤ c.toNat && c.toNat < 0xA0)

def isHexDigit (c : Char) : Bool :=
  c.isDigit || ('a' ≤ c && c ≤ 'f') || ('A' ≤ c && c ≤ 'F')

def isOctalDigit (c : Char) : Bool := '0' ≤ c && c ≤ '7'

/-- Visible ASCII characters other than letters and digits. -/
def isAsciiPunctuation (c : Char) : Bool :=
  isAscii c && 0x20 < c.toNat && c.toNat < 0x7F && !c.isAlphanum

/-- A char a word may start with. -/
def isWordStart (c : Char) : Bool := isAlphabetic c || c == '_'

/-- A char a word may go on with. -/
def isWordChar (c : Char) : Bool := isAlphanumeric c || c == '_'

end PegFront.Text
