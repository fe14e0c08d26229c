import PegFront.Cminor.Units
import PegFront.Peg.Link
import PegFront.Peg.Session

/-!
# Parsing cminor

The linked domain of all cminor grammars, and parsing of expressions, statements and compile units
with it.
-/

namespace PegFront.Cminor

/-- Every grammar, declared and linked. -/
def domain : Except ParseError (Domain Value) := do
  let (outcome, r) := Registry.empty.ensure Keywords.grammarName Keywords.plan
  outcome
  let (outcome, r) := r.ensure Units.grammarName Units.plan
  outcome
  r.link

/-- What a source is read as. -/
inductive SourceKind where
  | unit
  | statement
  | expression
deriving DecidableEq, Repr

namespace SourceKind

def all : List SourceKind := [.unit, .statement, .expression]

def displayName : SourceKind → String
  | .unit => "Unit"
  | .statement => "Statement"
  | .expression => "Expression"

def grammarName : SourceKind → String
  | .unit => Units.grammarName
  | .statement => Statements.grammarName
  | .expression => Expressions.grammarName

/-- Arguments of the start rule. -/
def startArgs : SourceKind → List Value
  | .expression => [.mode {}]
  | _ => []

end SourceKind

/-- Parses with the grammars of a domain, if they could be linked. -/
def parseWith (linked : Except ParseError (Domain Value)) (kind : SourceKind) (source : String)
    (options : Options) (session : Session Value) : Except Stop Value × Session Value :=
  match linked with
  | .error e => (.error (.error e), session)
  | .ok d =>
    match d.grammar? kind.grammarName with
    | none =>
      (.error (.error { cause := .unknownGrammar kind.grammarName "cminor", phase := "parse" }),
        session)
    | some g =>
      match d.parseIn g source options kind.startArgs session with
      | (.error e, session) => (.error e, session)
      | (.ok (some v), session) => (.ok v, session)
      | (.ok none, session) =>
        (.error (.error { cause := .missingValue kind.grammarName, phase := "parse" }), session)

def parse (kind : SourceKind) (source : String) (options : Options) (session : Session Value) :
    Except Stop Value × Session Value :=
  parseWith domain kind source options session

/-- Parses one file in a session of its own and takes the content of the value. -/
def parseFile {α : Type} (kind : SourceKind) (needed : ValueKind) (content? : Value → Option α)
    (source : String) (fileIndex : Nat) (file : String) : Except Stop α := do
  let v ← (parse kind source { file, fileIndex } {}).1
  (v.expect needed content?).mapError .error

def parseExpression (source : String) (fileIndex : Nat) (file : String) : Except Stop Expr :=
  parseFile .expression .expr Value.expr? source fileIndex file

def parseStatement (source : String) (fileIndex : Nat) (file : String) : Except Stop Statement :=
  parseFile .statement .statement Value.statement? source fileIndex file

def parseCompileUnit (source : String) (fileIndex : Nat) (file : String) : Except Stop CompileUnit :=
  parseFile .unit .compileUnit Value.compileUnit? source fileIndex file

end PegFront.Cminor
