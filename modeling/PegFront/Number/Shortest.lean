import PegFront.Number.Binary64

/-!
# Shortest decimals

The decimal with the fewest digits among those that round to a given binary number, and of several
such the one nearest to it. The reals that round to `m * 2 ^ q` lie between the midpoints to its two
neighbours, which belong to the interval iff `m` is even; a decimal is compared with the ends by
multiplying out.
-/

namespace PegFront

/-- The decimal `digits * 10 ^ exponent`. -/
structure Decimal where
  digits : Nat
  exponent : Int
deriving DecidableEq, Repr, Inhabited

/-- Which of two equally near decimals is taken. -/
inductive Tie where
  | even
  | up
deriving DecidableEq, Repr

namespace Decimal

/-- Drops trailing zeros into the exponent, at most `fuel` of them. -/
def strip : Nat → Decimal → Decimal
  | 0, d => d
  | fuel + 1, d =>
    if d.digits ≠ 0 && d.digits % 10 = 0 then strip fuel ⟨d.digits / 10, d.exponent + 1⟩ else d

/-- Whether `d` is less than `n * 2 ^ j`. -/
def lt (d : Decimal) (n : Nat) (j : Int) : Bool :=
  d.digits * Nat.pow 10 d.exponent.toNat * Nat.pow 2 (-j).toNat <
    n * Nat.pow 2 j.toNat * Nat.pow 10 (-d.exponent).toNat

/-- Whether `d` equals `n * 2 ^ j`. -/
def eqScaled (d : Decimal) (n : Nat) (j : Int) : Bool :=
  d.digits * Nat.pow 10 d.exponent.toNat * Nat.pow 2 (-j).toNat =
    n * Nat.pow 2 j.toNat * Nat.pow 10 (-d.exponent).toNat

end Decimal

namespace Binary64

/-- Significand and exponent of a finite number, sign aside. -/
def parts (x : Binary64) : Nat × Int :=
  let e : Nat := x.magnitude / significandCount
  let f := x.magnitude % significandCount
  if e = 0 then (f, -1074) else (significandCount + f, Int.ofNat e - 1075)

/-- Whether the gap to the number below is half the gap to the number above. -/
def narrowBelow (x : Binary64) : Bool :=
  x.magnitude % significandCount = 0 && 1 < x.magnitude / significandCount

/-- Whether a decimal lies among the reals that round to `x`. -/
def readsBack (x : Binary64) (d : Decimal) : Bool :=
  let (m, q) := x.parts
  let low := if x.narrowBelow then 4 * m - 1 else 4 * m - 2
  let high := 4 * m + 2
  let closed := m % 2 = 0
  let aboveLow := !d.lt low (q - 2) && (closed || !d.eqScaled low (q - 2))
  let belowHigh := d.lt high (q - 2) || (closed && d.eqScaled high (q - 2))
  aboveLow && belowHigh

/-- The least `k` with `m * 2 ^ q < 10 ^ k`, searched upwards from `start`. -/
def decimalScale (m : Nat) (q : Int) : Nat → Int → Int
  | 0, k => k
  | fuel + 1, k =>
    if (Decimal.mk 1 k).lt m q || (Decimal.mk 1 k).eqScaled m q then decimalScale m q fuel (k + 1)
    else k

/-- The decimal of `count` digits next to a number with scale `k` that reads back, if one does. -/
def nearest? (tie : Tie) (x : Binary64) (k : Int) (count : Nat) : Option Decimal :=
  let (m, q) := x.parts
  let exponent := k - count
  let num := m * Nat.pow 2 q.toNat * Nat.pow 10 (-exponent).toNat
  let den := Nat.pow 2 (-q).toNat * Nat.pow 10 exponent.toNat
  let below := num / den
  let low : Decimal := ⟨below, exponent⟩
  let high : Decimal := ⟨below + 1, exponent⟩
  let twice := 2 * (num % den)
  let highFirst := den < twice ||
    (twice = den && (match tie with
      | .up => true
      | .even => below % 2 = 1))
  match x.readsBack low, x.readsBack high with
  | true, true => some (if highFirst then high else low)
  | true, false => some low
  | false, true => some high
  | false, false => none

/-- The shortest decimal that rounds to the magnitude of a finite number. -/
def shortest (tie : Tie) (x : Binary64) : Decimal :=
  let (m, q) := x.parts
  if m = 0 then ⟨0, 0⟩
  else
    let estimate : Int := (((m.log2 : Int) + q) * 30103).fdiv 100000 - 1
    let k := decimalScale m q 4 estimate
    let found := (List.range 17).findSome? fun i => x.nearest? tie k (i + 1)
    let exact : Decimal := ⟨m * Nat.pow 2 q.toNat * Nat.pow 5 (-q).toNat, -(-q).toNat⟩
    (found.getD exact).strip 400

end Binary64

end PegFront
