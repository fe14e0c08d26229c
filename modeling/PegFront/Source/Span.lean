import PegFront.Text.Bytes

/-!
# Spans

A span is a byte range of one source file. Spans are combined by `merge`, which covers both, and grow
at the end only.
-/

namespace PegFront

structure Span where
  file : Nat
  start : Nat
  stop : Nat
deriving DecidableEq, Repr, Inhabited

namespace Span

/-- The empty span at an offset. -/
def point (file offset : Nat) : Span := ⟨file, offset, offset⟩

def length (s : Span) : Nat := s.stop - s.start

def isEmpty (s : Span) : Bool := s.start == s.stop

def contains (s : Span) (offset : Nat) : Bool := s.start ≤ offset && offset < s.stop

/-- Moves the end forward, never back. -/
def extendTo (s : Span) (stop : Nat) : Span := { s with stop := max s.stop stop }

/-- The smallest span of the first span's file that covers both. -/
def merge (s t : Span) : Span := ⟨s.file, min s.start t.start, max s.stop t.stop⟩

/-- The text a span covers, if the span lies on char boundaries of the source. -/
def slice? (s : Span) (source : List Char) : Option (List Char) :=
  Text.slice? source s.start s.stop

end Span

end PegFront
