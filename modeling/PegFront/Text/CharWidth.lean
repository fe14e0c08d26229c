import PegFront.Text.CharClass
import PegFront.Text.Wide
import PegFront.Text.ZeroWidth

/-!
# Display width of a character

Columns a character takes on a terminal when nothing beside it changes that: two for wide
characters, none for marks that sit on a neighbour, one for everything else, controls included. Two
Khmer signs stand for several letters and are as wide as those.
-/

namespace PegFront.Text

def charWidth (c : Char) : Nat :=
  if isAscii c then 1
  else if c.toNat == 0x17A4 then 2
  else if c.toNat == 0x17D8 then 3
  else if inRanges zeroWidthRanges c then 0
  else if inRanges wideRanges c then 2
  else 1

end PegFront.Text
