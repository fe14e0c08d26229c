/-!
# Machine words

How many values words of a given size have.
-/

namespace PegFront

/-- Values of 32 bits. -/
def wordCount32 : Nat := 0x100000000

/-- Values of 64 bits. -/
def wordCount64 : Nat := 0x10000000000000000

/-- Values of 63 bits: an integer of 64 bits with sign is at least the negative of this and below it. -/
def wordCount63 : Nat := 0x8000000000000000

end PegFront
