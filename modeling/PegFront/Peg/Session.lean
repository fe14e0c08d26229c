import PegFront.Peg.Domain
import PegFront.Peg.Engine

/-!
# Parsing

A grammar of a domain parses a whole input with its start rule. A session is what a caller keeps over
several parses: the values on its stack, which a parse leaves as they were, and the trace of the last
parse.
-/

namespace PegFront

structure Options where
  file : String := "<input>"
  fileIndex : Nat := 0
  /-- Whether the entries and exits of rules are recorded. -/
  trace : Bool := false
deriving DecidableEq, Repr

structure Session (V : Type) where
  stack : Stack V := .empty
  trace : Option Trace := none

namespace Engine

variable {V : Type}

/-- Most descriptions listed in the hint of an incomplete parse. -/
def listedDescriptions : Nat := 8

/-- The hint of an incomplete parse: what was expected at the farthest place reached. -/
def expectationHelp (expected : List String) : Option String :=
  if expected.isEmpty then none
  else
    let listed := ", ".intercalate (expected.take listedDescriptions)
    some ("expected one of: " ++ if expected.length ≤ listedDescriptions then listed
      else listed ++ ", ...")

/-- The start rule did not match the whole input. -/
def incomplete (s : Scanner) (rule : Rule V) : ParseError :=
  { s.expectationFailure rule.name s.reach with help := expectationHelp s.expectedThere }

/-- Ends a parse: all of the input must be matched, and the value of the start rule comes off the stack.
`depth` is the size of the stack without it. -/
def endStart (rule : Rule V) (depth : Nat) (m : Match) : Engine V (Option V) := do
  let s ← get
  if m.isMiss || !s.scanner.atEnd then throw (.error (incomplete s.scanner rule))
  if !rule.hasValue then return none
  match s.stack.pop? with
  | some (v, stack) =>
    setStack stack
    if stack.size = depth then return some v
    raiseInternal (.missingValue rule.qualifiedName) s.scanner.span
  | none => raiseInternal (.missingValue rule.qualifiedName) s.scanner.span

/-- Matches the start rule and what may be skipped around it. -/
def matchStart (invoke : RuleId → Engine V Match) (id : RuleId) : Engine V Match := do
  skip invoke
  let m ← invoke id
  if m.isHit then skip invoke
  return m

/-- Matches the whole input with the start rule. `depth` is the size of the stack without the
arguments. -/
def runStart (invoke : RuleId → Engine V Match) (id : RuleId) (rule : Rule V) (depth : Nat) :
    Engine V (Option V) := do
  let m ← matchStart invoke id
  endStart rule depth m

/-- Fuel for an input of a given length: rules nest and repetitions go round at most so often unless a
rule calls itself, or a round matches, without getting ahead in the input. -/
def fuelFor (ruleCount length : Nat) : Nat := 2 * (ruleCount + 1) * (length + 2)

/-- More rounds and nested rules than a run can get through that ends at all, also one that stands still
in the input until an argument or a value its actions keep has reached a limit. -/
def ample : Nat := 0x4000000000000000

end Engine

namespace Domain

variable {V : Type}

/-- The fuel of a parse: enough for the length of the input, and ample where that does not bound the run. -/
def fuelOf (d : Domain V) (source : String) : Nat :=
  Engine.ample + Engine.fuelFor d.rules.size (Text.byteLength source.toList)

/-- The state in which a parse starts. -/
def startState (g : Grammar) (source : String) (options : Options) (stack : Stack V) : State V where
  scanner := { Scanner.new (.whole source.toList options.fileIndex options.file) with
    skipRule := g.skip
    trace := if options.trace then some .empty else none }
  stack := stack
  context := .empty

/-- Parses all of an input with the start rule of a grammar, passing it `args`. The result is the
value of the start rule, if it declares one. -/
def parseIn (d : Domain V) (g : Grammar) (source : String) (options : Options) (args : List V)
    (session : Session V) : Except Stop (Option V) × Session V :=
  match g.start, g.start.bind d.rule? with
  | some start, some rule =>
    if args.length ≠ rule.arity then
      (.error (.error {
        cause := .argumentCountMismatch (g.name ++ "::parse") rule.qualifiedName rule.arity args.length
        phase := "grammar" }), session)
    else
      let depth := session.stack.size
      let invoke := Engine.invoke d.rules (d.fuelOf source)
      let (outcome, final) := (Engine.runStart invoke start rule depth).run.run
        (startState g source options (session.stack.pushAll args))
      let stack := match outcome with
        | .ok _ => final.stack
        | .error _ => final.stack.truncate depth
      (outcome, { stack, trace := final.scanner.trace })
  | _, _ => (.error (.error { cause := .noStartRule g.name, phase := "grammar" }), session)

end Domain

end PegFront
