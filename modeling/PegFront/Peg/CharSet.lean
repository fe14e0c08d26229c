import PegFront.Text.Quoted

/-!
# Character sets

A character set is written as in `a-zA-Z_` or `^\n\r`: single chars and ranges, inverted by a leading
`^`, with escapes for the chars that would mean something else. A malformed text still gives a set,
which carries the reason it is refused for.
-/

namespace PegFront

structure CharSet where
  text : String
  ranges : List (Char × Char)
  inverse : Bool
  /-- Why the text is malformed. -/
  invalid : Option String
deriving DecidableEq, Repr

namespace CharSet

/-- The char an escape stands for. -/
def unescape? : Char → Option Char
  | 'n' => some '\n'
  | 'r' => some '\r'
  | 't' => some '\t'
  | '0' => some '\x00'
  | '\\' => some '\\'
  | '-' => some '-'
  | ']' => some ']'
  | '^' => some '^'
  | '[' => some '['
  | _ => none

/-- Why a class text is refused. -/
inductive Fault where
  | unknownEscape
  | trailingBackslash
  | badRangeEscape
  | reversed (low high : Char)
  | empty
deriving DecidableEq, Repr

def Fault.message : Fault → String
  | .unknownEscape => "unknown escape sequence"
  | .trailingBackslash => "trailing backslash"
  | .badRangeEscape => "bad escape in range"
  | .reversed low high =>
    "range " ++ Text.quoteChar low ++ "-" ++ Text.quoteChar high ++ " is reversed"
  | .empty => "empty class"

/-- Scans class text. `pending` holds the single chars so far, last first: a `-` takes the last of
them as the low end of a range. Single chars come after the ranges in the result. -/
def scan : List Char → (pending : List Char) → (ranges : List (Char × Char)) →
    List (Char × Char) × Option Fault
  | [], pending, ranges =>
    let all := ranges ++ pending.reverse.map fun c => (c, c)
    (all, if all.isEmpty then some .empty else none)
  | '\\' :: rest, pending, ranges =>
    match rest with
    | [] => (ranges, some .trailingBackslash)
    | e :: rest =>
      match unescape? e with
      | some c => scan rest (c :: pending) ranges
      | none => (ranges, some .unknownEscape)
  | '-' :: rest, pending, ranges =>
    match pending, rest with
    | _ :: _, ['\\'] => (ranges, some .badRangeEscape)
    | low :: below, '\\' :: e :: rest =>
      match unescape? e with
      | none => (ranges, some .badRangeEscape)
      | some high =>
        if high < low then (ranges, some (.reversed low high))
        else scan rest below (ranges ++ [(low, high)])
    | low :: below, high :: rest =>
      if high < low then (ranges, some (.reversed low high))
      else scan rest below (ranges ++ [(low, high)])
    | _, rest => scan rest ('-' :: pending) ranges
  | c :: rest, pending, ranges => scan rest (c :: pending) ranges
termination_by structural cs => cs

def ofText (text : String) : CharSet :=
  let (inverse, body) := match text.toList with
    | '^' :: rest => (true, rest)
    | cs => (false, cs)
  let (ranges, fault) := scan body [] []
  { text, ranges, inverse, invalid := fault.map Fault.message }

/-- Whether a set contains a char. -/
def accepts (set : CharSet) (c : Char) : Bool :=
  (set.ranges.any fun r => r.1 ≤ c && c ≤ r.2) != set.inverse

end CharSet

end PegFront
