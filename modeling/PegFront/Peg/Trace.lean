import PegFront.Source.Span
import PegFront.Peg.QualifiedName
import PegFront.Text.CharClass

/-!
# Traces

A trace records every entry into a rule and how the rule was left, with a short excerpt of the input:
what lies ahead on entry, what was matched on success.
-/

namespace PegFront

inductive TraceKind where
  | enter
  | success
  | failure
deriving DecidableEq, Repr

structure TraceEvent where
  kind : TraceKind
  /-- Qualified name of the rule. -/
  rule : String
  depth : Nat
  span : Span
  excerpt : String
deriving DecidableEq, Repr

/-- Whether an event belongs to a rule, given by its qualified name or by its own name. -/
def TraceEvent.isRule (e : TraceEvent) (name : String) : Bool :=
  e.rule == name || ((splitQualified? e.rule).any fun (_, rule) => rule == name)

structure Trace where
  events : Array TraceEvent
deriving Repr, Inhabited

namespace Trace

def empty : Trace := ⟨#[]⟩

/-- Most chars of the input kept in an excerpt. -/
def excerptLength : Nat := 24

/-- The first chars of a text, controls as blanks, with dots if there are more. -/
def excerpt (text : List Char) : String :=
  let shown := (text.take excerptLength).map fun c => if Text.isControl c then ' ' else c
  String.ofList (if (text.drop excerptLength).isEmpty then shown else shown ++ ['.', '.', '.'])

def record (t : Trace) (kind : TraceKind) (rule : String) (depth : Nat) (span : Span)
    (text : List Char) : Trace :=
  ⟨t.events.push ⟨kind, rule, depth, span, excerpt text⟩⟩

def size (t : Trace) : Nat := t.events.size

/-- Events of one rule, in order. -/
def forRule (t : Trace) (name : String) : List TraceEvent :=
  t.events.toList.filter (·.isRule name)

end Trace

end PegFront
