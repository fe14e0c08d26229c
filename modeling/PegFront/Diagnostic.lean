import PegFront.Error
import PegFront.Styled
import PegFront.Text.Width

/-!
# Short reports

A short report shows the message of an error, its place, the line it starts on and carets under the
part of its span on that line. Widths are measured in columns by a given function.
-/

namespace PegFront

/-- The line an error starts on and where the carets go under it. -/
structure Snippet where
  line : Nat
  text : List Char
  /-- Columns before the carets. -/
  indent : Nat
  /-- Columns under which carets stand, at least one. -/
  width : Nat
deriving DecidableEq, Repr

namespace ParseError

def snippet? (columns : List Char → Nat) (e : ParseError) (source : List Char) : Option Snippet := do
  let origin ← e.origin
  let text ← Source.lineText? source origin.position.line
  let before := text.take (origin.position.column - 1)
  let lineEnd := origin.span.start - Text.byteLength before + Text.byteLength text
  let covered := (Text.slice? source origin.span.start (min origin.span.stop lineEnd)).getD []
  some {
    line := origin.position.line
    text := text
    indent := columns before
    width := max (columns covered) 1 }

/-- File, line and column of an error. -/
def place (e : ParseError) : String :=
  match e.origin with
  | some o => o.file ++ ":" ++ toString o.position.line ++ ":" ++ toString o.position.column
  | none => "<unknown>"

def blanks (n : Nat) : String := String.ofList (List.replicate n ' ')

def carets (n : Nat) : String := String.ofList (List.replicate n '^')

def snippetReport (s : Snippet) : Styled :=
  let number := toString s.line
  let gutter := blanks number.length
  [.style ⟨some .blue, false, false⟩, .text (gutter ++ " |\n" ++ number ++ " | "), .plain,
    .text (String.ofList s.text ++ "\n"),
    .style ⟨some .blue, false, false⟩, .text (gutter ++ " | "),
    .style ⟨some .red, true, false⟩, .text (blanks s.indent ++ carets s.width ++ "\n"), .plain]

def report (e : ParseError) (source : List Char) : Styled :=
  Styled.styled ⟨some .red, true, false⟩ ("error[" ++ e.code ++ "]") ++
    [.text (": " ++ e.cause.message ++ "\n")] ++
    Styled.styled ⟨some .blue, false, false⟩ "  --> " ++ [.text (e.place ++ "\n")] ++
    (match e.snippet? Text.width source with
      | some s => snippetReport s
      | none => []) ++
    (match e.help with
      | some help => Styled.styled ⟨some .cyan, false, false⟩ "  = help" ++ [.text (": " ++ help ++ "\n")]
      | none => [])

end ParseError

end PegFront
