/-!
# The value stack

The stack carries arguments into rules and their values out of them. The list of values has the top
first; `popN` gives several values in the order they were pushed.
-/

namespace PegFront

structure Stack (V : Type) where
  values : List V
deriving Repr, Inhabited

namespace Stack

variable {V : Type}

def empty : Stack V := ⟨[]⟩

def size (s : Stack V) : Nat := s.values.length

def isEmpty (s : Stack V) : Bool := s.values.isEmpty

def top? (s : Stack V) : Option V := s.values.head?

def push (s : Stack V) (v : V) : Stack V := ⟨v :: s.values⟩

/-- Pushes values in order, so that the last one is on top. -/
def pushAll (s : Stack V) (vs : List V) : Stack V := ⟨vs.reverse ++ s.values⟩

def pop? (s : Stack V) : Option (V × Stack V) :=
  match s.values with
  | [] => none
  | v :: rest => some (v, ⟨rest⟩)

/-- The top `count` values in push order and what is below them, if there are that many. -/
def popN? (s : Stack V) (count : Nat) : Option (List V × Stack V) :=
  if count ≤ s.values.length then some ((s.values.take count).reverse, ⟨s.values.drop count⟩)
  else none

/-- Drops everything above `depth`. -/
def truncate (s : Stack V) (depth : Nat) : Stack V := ⟨s.values.drop (s.values.length - depth)⟩

end Stack

end PegFront
