import PegFront.Cminor.Syntax.Printer
import PegFront.Cminor.Value
import PegFront.Json.Writer
import PegFront.Peg.Domain
import PegFront.Peg.Trace
import PegFront.Styled
import PegFront.Text.Quoted

/-!
# Trees, traces and grammars on the terminal
-/

namespace PegFront.Cli

open Cminor (Value)

/-- Type and tree of a value; an expression also shows its short form. -/
def treeReport (v : Value) : Styled :=
  let short := match v with
    | .expr e => " " ++ e.display
    | _ => ""
  Styled.styled ⟨some .green, true, false⟩ v.typeName ++
    [.text (short ++ "\n" ++ v.dump.pretty ++ "\n")]

def treeDocument (v : Value) : String := v.toJson.pretty ++ "\n"

def eventMark : TraceKind → String × Color
  | .enter => ("->", .cyan)
  | .success => ("ok", .green)
  | .failure => ("--", .red)

/-- One line, indented by the depth of the rule. A failure shows no excerpt. -/
def eventReport (e : TraceEvent) : Styled :=
  let (mark, color) := eventMark e.kind
  let excerpt := if e.kind = .failure || e.excerpt.isEmpty then "" else " " ++ Text.quote e.excerpt
  [.text (String.ofList (List.replicate (2 * e.depth) ' '))] ++
    Styled.styled ⟨some color, false, false⟩ (mark ++ " ") ++ [.text (e.rule ++ " ")] ++
    Styled.styled ⟨none, false, true⟩ ("@" ++ toString e.span.start ++ ".." ++ toString e.span.stop) ++
    [.text (excerpt ++ "\n")]

/-- The events of a trace, or of one rule in it, and how many they are. -/
def traceReport (t : Trace) (rule : Option String) : Styled :=
  let shown := match rule with
    | some name => t.forRule name
    | none => t.events.toList
  shown.flatMap eventReport ++
    Styled.styled ⟨none, false, true⟩
      (toString shown.length ++ " of " ++ toString t.size ++ " event(s)\n")

/-- The listing of a grammar with its first word highlighted. -/
def grammarReport {V : Type} (d : Domain V) (g : Grammar) : Styled :=
  Styled.styled ⟨some .yellow, true, false⟩ Domain.listingWord ++ [.text (d.listingBody g)]

/-- Listings with an empty line between them. -/
def grammarsReport {V : Type} (d : Domain V) (gs : List Grammar) : Styled :=
  List.flatten ((gs.map (grammarReport d)).intersperse [.text "\n"])

end PegFront.Cli
