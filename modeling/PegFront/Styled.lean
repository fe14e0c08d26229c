/-!
# Styled texts

A text with changes of style in it. On a terminal without colours only the text is written; otherwise
each change of style clears the one before it and sets the new one.
-/

namespace PegFront

inductive Color where
  | red
  | green
  | yellow
  | blue
  | cyan
deriving DecidableEq, Repr

structure Style where
  color : Option Color := none
  bold : Bool := false
  dimmed : Bool := false
deriving DecidableEq, Repr

inductive Piece where
  | text (content : String)
  | style (style : Style)
  | plain
deriving DecidableEq, Repr

abbrev Styled := List Piece

namespace Styled

def colorCode : Color → String
  | .red => "1"
  | .green => "2"
  | .yellow => "3"
  | .blue => "4"
  | .cyan => "6"

def escape (parameters : String) : String := "\x1b[" ++ parameters ++ "m"

def styleCodes (s : Style) : String :=
  escape "0" ++ (if s.bold then escape "1" else "") ++ (if s.dimmed then escape "2" else "") ++
    (match s.color with
      | some c => escape ("3" ++ colorCode c)
      | none => "")

def renderPiece (colored : Bool) : Piece → String
  | .text content => content
  | .style s => if colored then styleCodes s else ""
  | .plain => if colored then escape "0" else ""

def render (colored : Bool) (t : Styled) : String := String.join (t.map (renderPiece colored))

/-- A text in a style, and the plain style after it. -/
def styled (s : Style) (content : String) : Styled := [.style s, .text content, .plain]

end Styled

end PegFront
