/-!
# Matches

A hit has a length in bytes; a hit of length zero is not a miss.
-/

namespace PegFront

inductive Match where
  | hit (length : Nat)
  | miss
deriving DecidableEq, Repr

namespace Match

def empty : Match := .hit 0

def isHit : Match → Bool
  | .hit _ => true
  | .miss => false

def isMiss : Match → Bool
  | .hit _ => false
  | .miss => true

def length? : Match → Option Nat
  | .hit n => some n
  | .miss => none

end Match

end PegFront
