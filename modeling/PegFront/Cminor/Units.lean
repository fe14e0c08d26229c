import PegFront.Cminor.Statements

/-!
# Compile units

A compile unit is a sequence of functions.
-/

namespace PegFront.Cminor.Units

open Pattern

def grammarName : String := "cminor.parser.CompileUnitGrammar"

/-! ## Actions -/

def unit (ctx : Context Value) (m : Matched) : Bool × Context Value :=
  match takeItems Value.function? "functions" ctx with
  | (some functions, ctx) => (true, ctx.setValue (.compileUnit ⟨m.file, functions, m.span⟩))
  | (none, ctx) => (false, ctx)

def function (ctx : Context Value) (m : Matched) : Bool × Context Value :=
  let (returnType, ctx) := takeAs Value.type? "ReturnType" ctx
  let (name, ctx) := takeAs Value.identifier? "Identifier" ctx
  let (body, ctx) := takeAs Value.statement? "Body" ctx
  let (parameters, ctx) := takeItems Value.parameter? "parameters" ctx
  match returnType, name, body, parameters with
  | some returnType, some name, some body, some parameters =>
    (true, ctx.setValue (.function ⟨returnType, name, parameters, body, m.span⟩))
  | _, _, _, _ => (false, ctx)

def parameter (ctx : Context Value) (m : Matched) : Bool × Context Value :=
  let (type, ctx) := takeAs Value.type? "TypeExpr" ctx
  let (name, ctx) := takeAs Value.identifier? "Identifier" ctx
  match type, name with
  | some type, some name => (true, ctx.setValue (.parameter ⟨type, name, m.span⟩))
  | _, _ => (false, ctx)

/-! ## Rules -/

def unitRule : Rule Value :=
  Rule.new "CompileUnit" (.act "Unit" (.many (rule "Function")))
    |>.yielding "CompileUnit"
    |>.postCall "Function" (pushItem "functions")
    |>.predicate "Unit" unit

def functionRule : Rule Value :=
  Rule.new "Function"
      (.act "A0" (sequence [
        callAs "ReturnType" "TypeExpr" 0,
        rule "Identifier",
        char '(',
        .opt (.list (rule "Parameter") (char ',')),
        .expect (char ')'),
        .expect (callAs "Body" "CompoundStatement" 0)]))
    |>.yielding "Function"
    |>.postCall "Parameter" (pushItem "parameters")
    |>.predicate "A0" function

def parameterRule : Rule Value :=
  Rule.new "Parameter" (.act "A0" (.seq (rule "TypeExpr") (.expect (rule "Identifier"))))
    |>.yielding "Parameter"
    |>.predicate "A0" parameter

def grammar : GrammarDecl Value where
  name := grammarName
  references := [Lexical.grammarName, Identifiers.grammarName, Types.grammarName,
    Statements.grammarName]
  links := [
    ("Identifier", Identifiers.qualified "Identifier"),
    ("TypeExpr", Types.qualified "TypeExpr"),
    ("CompoundStatement", Statements.qualified "Compound"),
    ("SpacesAndComments", Lexical.qualified "spaces_and_comments")]
  rules := [unitRule, functionRule, parameterRule]
  start := some "CompileUnit"
  skip := some "SpacesAndComments"

def plan : Plan Value :=
  .provide Lexical.grammar (.requiring [
    (Identifiers.grammarName, Identifiers.plan),
    (Types.grammarName, Types.plan),
    (Statements.grammarName, Statements.plan)] (.done grammar))

end PegFront.Cminor.Units
