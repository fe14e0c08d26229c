import PegFront.Json.Basic
import PegFront.Peg.Rule

/-!
# Scripted actions

Actions and hooks written as data, for grammars whose values are JSON documents. A term computes a
value from the context and the matched text, or nothing; a step changes the context or decides about
the match.
-/

namespace PegFront.Script

inductive Term where
  /-- Text, span and file of the match. -/
  | text
  | span
  | file
  /-- Offset at which the rule began. -/
  | start
  /-- The value of the rule so far. -/
  | value
  /-- The value of the called rule. -/
  | arg
  | const (value : Json)
  | var (name : String)
  | has (name : String)
  /-- A text read as an integer of 64 bits. -/
  | int (term : Term)
  | add (left right : Term)
  | mul (left right : Term)
  | gt (left right : Term)
  | cat (left right : Term)
  | eq (left right : Term)
  | list (terms : List Term)

/-- What a term can refer to. -/
structure Scope where
  context : Context Json
  matched : Option Matched := none
  arg : Option Json := none

/-- Reduces an integer to 64 bits with sign. -/
def wrap (n : Int) : Int := n.bmod wordCount64

/-- Reads an integer of 64 bits: an optional sign and digits. -/
def readInt? (text : String) : Option Int :=
  let (sign, digits) : Int × List Char := match text.toList with
    | '-' :: ds => (-1, ds)
    | '+' :: ds => (1, ds)
    | ds => (1, ds)
  let n := sign * (digits.foldl (fun n d => n * 10 + (d.toNat - '0'.toNat)) 0 : Nat)
  if digits.isEmpty || digits.any (!·.isDigit) || n < -wordCount63 || wordCount63 ≤ n then none else some n

def spanValue (s : Span) : Json := .array [.nat s.file, .nat s.start, .nat s.stop]

mutual

def Term.eval (scope : Scope) : Term → Option Json
  | .text => scope.matched.map fun m => .string m.text
  | .span => scope.matched.map fun m => spanValue m.span
  | .file => scope.matched.map fun m => .string m.file
  | .start => some (.nat scope.context.start)
  | .value => scope.context.value
  | .arg => scope.arg
  | .const v => some v
  | .var name => scope.context.get? name
  | .has name => some (.bool (scope.context.contains name))
  | .int t => do .int <$> readInt? (← (← t.eval scope).string?)
  | .add a b => do
    return .int (wrap ((← (← a.eval scope).int64?) + (← (← b.eval scope).int64?)))
  | .mul a b => do
    return .int (wrap ((← (← a.eval scope).int64?) * (← (← b.eval scope).int64?)))
  | .gt a b => do
    let a ← (← a.eval scope).int64?
    let b ← (← b.eval scope).int64?
    return .bool (b < a)
  | .cat a b => do return .string ((← (← a.eval scope).string?) ++ (← (← b.eval scope).string?))
  | .eq a b => do return .bool ((← a.eval scope) == (← b.eval scope))
  | .list ts => some (.array (Term.evalAll scope ts))

/-- The values of those terms that have one. -/
def Term.evalAll (scope : Scope) : List Term → List Json
  | [] => []
  | t :: ts =>
    match t.eval scope with
    | some v => v :: Term.evalAll scope ts
    | none => Term.evalAll scope ts

end

inductive Step where
  | setValue (term : Term)
  | set (name : String) (term : Term)
  /-- Appends to a list, or starts one. -/
  | push (name : String) (term : Term)
  | drop (name : String)
  | dropValue
  | rejectIf (term : Term)
  | failIf (typeName : String) (term : Term)

/-- Appends to the array kept under a name, or replaces what is kept by an array of one item. -/
def pushItem (ctx : Context Json) (name : String) (v : Json) : Context Json :=
  match ctx.get? name with
  | some (.array items) => ctx.set name (.array (items ++ [v]))
  | _ => ctx.set name (.array [v])

/-- Runs one step; a term without a value has no effect. -/
def Step.run (scope : Scope) : Step → Verdict × Context Json
  | .setValue t => (.pass, ((t.eval scope).map scope.context.setValue).getD scope.context)
  | .set name t => (.pass, ((t.eval scope).map (scope.context.set name)).getD scope.context)
  | .push name t => (.pass, ((t.eval scope).map (pushItem scope.context name)).getD scope.context)
  | .drop name => (.pass, (scope.context.take name).2)
  | .dropValue => (.pass, scope.context.takeValue.2)
  | .rejectIf t =>
    (if t.eval scope == some (.bool true) then .reject else .pass, scope.context)
  | .failIf typeName t =>
    let text := (scope.matched.map (·.text)).getD ""
    (if t.eval scope == some (.bool true) then .fail (.literalOverflow text typeName) else .pass,
      scope.context)

/-- Runs steps in order until one does not pass. -/
def runSteps (scope : Scope) : List Step → Verdict × Context Json
  | [] => (.pass, scope.context)
  | step :: steps =>
    match step.run scope with
    | (.pass, context) => runSteps { scope with context } steps
    | stopped => stopped

/-- How much an action may decide. -/
inductive Power where
  /-- Nothing: every match passes. -/
  | act
  /-- Whether the match passes. -/
  | test
  /-- Also whether the parse fails. -/
  | check
deriving DecidableEq, Repr

def Power.limit : Power → Verdict → Verdict
  | .act, _ => .pass
  | .test, .fail _ => .reject
  | _, v => v

def action (power : Power) (steps : List Step) : Action Json := fun context m =>
  let (verdict, context) := runSteps { context, matched := some m } steps
  (power.limit verdict, context)

def preCall (terms : List Term) : PreCall Json := fun context => Term.evalAll { context } terms

def postCall (steps : List Step) : PostCall Json := fun context v =>
  (runSteps { context, arg := some v } steps).2

end PegFront.Script
