import PegFront.Number.Words

/-!
# Binary floating-point numbers

A 64-bit binary floating-point number is kept as its bit pattern. `ofDecimal` rounds a decimal to the
nearest number, a tie to the one with an even significand, in exact integer arithmetic.
-/

namespace PegFront

structure Binary64 where
  bits : UInt64
deriving DecidableEq, Repr, Inhabited

namespace Binary64

def signBit : Nat := wordCount63

/-- How many numbers share an exponent. -/
def significandCount : Nat := 0x10000000000000

/-- Bits of the positive infinity. -/
def infinityBits : Nat := 0x7FF * significandCount

def isNegative (x : Binary64) : Bool := signBit ≤ x.bits.toNat

/-- Bits without the sign. -/
def magnitude (x : Binary64) : Nat := x.bits.toNat % signBit

/-- Equality of finite numbers: the two zeros are equal. -/
def same (x y : Binary64) : Bool := x == y || (x.magnitude == 0 && y.magnitude == 0)

def isFinite (x : Binary64) : Bool := x.magnitude < infinityBits

def ofMagnitude (negative : Bool) (magnitude : Nat) : Binary64 :=
  ⟨UInt64.ofNat (if negative then signBit + magnitude else magnitude)⟩

/-- The quotient rounded to nearest, a tie to the even neighbour. -/
def roundDiv (num den : Nat) : Nat :=
  let q := num / den
  let r := num % den
  if den < 2 * r || (2 * r = den && q % 2 = 1) then q + 1 else q

/-- The exponent `e` of a positive ratio: `2 ^ e ≤ num / den < 2 ^ (e + 1)`. -/
def binaryExponent (num den : Nat) : Int :=
  let e : Int := (num.log2 : Int) - den.log2
  if den * Nat.pow 2 e.toNat ≤ num * Nat.pow 2 (-e).toNat then e else e - 1

/-- Bits of the number nearest to a positive ratio. -/
def ratioBits (num den : Nat) : Nat :=
  let e := max (binaryExponent num den - 52) (-1074)
  let m := roundDiv (num * Nat.pow 2 (-e).toNat) (den * Nat.pow 2 e.toNat)
  min ((e + 1074).toNat * significandCount + m) infinityBits

/-- Number of decimal digits of `n`. -/
def digitCount (n : Nat) : Nat := (Nat.toDigits 10 n).length

/-- The number nearest to `digits * 10 ^ exponent`. Decimals far outside the range are decided by
their size alone. -/
def ofDecimal (negative : Bool) (digits : Nat) (exponent : Int) : Binary64 :=
  let scale := (digitCount digits : Int) + exponent
  ofMagnitude negative <|
    if digits = 0 || scale < -400 then 0
    else if 400 < scale then infinityBits
    else ratioBits (digits * Nat.pow 10 exponent.toNat) (Nat.pow 10 (-exponent).toNat)

def ofInt (n : Int) : Binary64 := ofDecimal (n < 0) n.natAbs 0

/-- Sixteen hex digits of the bit pattern. -/
def hex (x : Binary64) : String :=
  let digits := Nat.toDigits 16 x.bits.toNat
  String.ofList (List.replicate (16 - digits.length) '0' ++ digits)

end Binary64

end PegFront
