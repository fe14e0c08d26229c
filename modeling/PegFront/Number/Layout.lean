import PegFront.Number.Shortest

/-!
# Layouts of decimal numbers

How a shortest decimal is written: positionally inside a range of magnitudes, with an exponent outside
it. A number written positionally always has a fractional part.
-/

namespace PegFront

structure NumberLayout where
  tie : Tie
  /-- Least number of places before the point that is still written positionally. -/
  leastPlaces : Int
  /-- Greatest number of places before the point that is still written positionally. -/
  mostPlaces : Int
  /-- Sign of an exponent that is not negative. -/
  plus : String
  infinity : String

namespace NumberLayout

/-- Digits with the point after the first `places` of them, zeros filled in on either side. -/
def positional (digits : List Char) (places : Int) : List Char :=
  if places ≤ 0 then ['0', '.'] ++ List.replicate (-places).toNat '0' ++ digits
  else
    let n := places.toNat
    if digits.length ≤ n then digits ++ List.replicate (n - digits.length) '0' ++ ['.', '0']
    else digits.take n ++ ['.'] ++ digits.drop n

/-- One digit, the others after a point, and the exponent. -/
def scientific (plus : String) (digits : List Char) (exponent : Int) : List Char :=
  let mantissa := match digits with
    | d :: e :: rest => d :: '.' :: e :: rest
    | ds => ds
  let sign := if exponent < 0 then ['-'] else plus.toList
  mantissa ++ ['e'] ++ sign ++ Nat.toDigits 10 exponent.natAbs

def write (layout : NumberLayout) (x : Binary64) : String :=
  let sign := if x.isNegative then ['-'] else []
  let body :=
    if !x.isFinite then layout.infinity.toList
    else
      let d := x.shortest layout.tie
      let digits := Nat.toDigits 10 d.digits
      let places := (digits.length : Int) + d.exponent
      if d.digits = 0 then ['0', '.', '0']
      else if layout.leastPlaces ≤ places && places ≤ layout.mostPlaces then positional digits places
      else scientific layout.plus digits (places - 1)
  String.ofList (sign ++ body)

end NumberLayout

end PegFront
