import PegFront.Source.Span

/-!
# Lines and columns

Line and column of an offset, both counted from one, and the text of a line without its terminator.
Columns count chars; an offset inside a char counts bytes instead.
-/

namespace PegFront

structure Position where
  line : Nat
  column : Nat
deriving DecidableEq, Repr, Inhabited

namespace Source

/-- Offsets after each newline of a text that begins at `offset`. -/
def lineStartsFrom (offset : Nat) : List Char → List Nat
  | [] => []
  | c :: cs =>
    let next := offset + c.utf8Size
    if c = '\n' then next :: lineStartsFrom next cs else lineStartsFrom next cs

/-- Offsets at which the lines of a source begin, ascending. -/
def lineStarts (source : List Char) : List Nat := 0 :: lineStartsFrom 0 source

def lineCount (source : List Char) : Nat := (lineStarts source).length

/-- Line and column of an offset; offsets past the end count as the end. -/
def position (source : List Char) (offset : Nat) : Position :=
  let offset := min offset (Text.byteLength source)
  let before := (lineStarts source).filter (· ≤ offset)
  let lineStart := before.getLast?.getD 0
  let column := match Text.slice? source lineStart offset with
    | some text => text.length
    | none => offset - lineStart
  ⟨before.length, column + 1⟩

/-- A line without the carriage return it may end in. -/
def stripReturn (line : List Char) : List Char :=
  if line.getLast? = some '\r' then line.dropLast else line

/-- Text of a line, counted from one, without its terminator. -/
def lineText? (source : List Char) (line : Nat) : Option (List Char) := do
  let starts := lineStarts source
  guard (1 ≤ line)
  let start ← starts[line - 1]?
  let stop := match starts[line]? with
    | some next => next - 1
    | none => Text.byteLength source
  stripReturn <$> Text.slice? source start stop

end Source

end PegFront
