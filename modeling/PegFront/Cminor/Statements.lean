import PegFront.Cminor.Expressions

/-!
# Statements

A statement that ends in a semicolon is a rule for its body and a rule that adds the semicolon, so that
the head of a `for` can use the bodies.
-/

namespace PegFront.Cminor.Statements

open Pattern Expressions

def grammarName : String := "cminor.parser.StatementGrammar"

def qualified (rule : String) : String := qualify grammarName rule

def alternatives : List String :=
  ["Compound", "If", "While", "DoWhile", "For", "Return", "Break", "Continue", "Construction",
    "Assignment", "ExpressionStatement", "Empty"]

def statementRule (name : String) (definition : Pattern) : Rule Value :=
  Rule.new name definition |>.yielding "Statement"

/-- The value of the first rule that matches. -/
def oneOf (name : String) (rules : List String) : Rule Value :=
  rules.foldl (·.yields ·) (statementRule name (choice (rules.map rule)))

/-! ## Actions -/

def finish (ctx : Context Value) (s : Statement) : Bool × Context Value :=
  (true, ctx.setValue (.statement s))

/-- The semicolon belongs to the statement. -/
def terminate (ctx : Context Value) (m : Matched) : Bool × Context Value :=
  match ctx.value with
  | some (.statement s) => finish ctx (s.extendTo m.span.stop)
  | _ => (false, ctx)

def openBlock (ctx : Context Value) (_ : Matched) : Context Value := ctx.set "items" (.list [])

def closeBlock (ctx : Context Value) (m : Matched) : Bool × Context Value :=
  match takeItems Value.statement? "items" ctx with
  | (some items, ctx) => finish ctx (.compound items ⟨m.span.file, ctx.start, m.span.stop⟩)
  | (none, ctx) => (false, ctx)

def ifElse (ctx : Context Value) (m : Matched) : Bool × Context Value :=
  let (condition, ctx) := takeAs Value.expr? "Cond" ctx
  let (thenBranch, ctx) := takeAs Value.statement? "Then" ctx
  match condition, thenBranch with
  | some condition, some thenBranch =>
    let (elseBranch, ctx) := takeAs Value.statement? "Else" ctx
    finish ctx (.ifElse condition thenBranch elseBranch m.span)
  | _, _ => (false, ctx)

def whileLoop (ctx : Context Value) (m : Matched) : Bool × Context Value :=
  let (condition, ctx) := takeAs Value.expr? "Cond" ctx
  let (body, ctx) := takeAs Value.statement? "Body" ctx
  match condition, body with
  | some condition, some body => finish ctx (.whileLoop condition body m.span)
  | _, _ => (false, ctx)

def doWhile (ctx : Context Value) (m : Matched) : Bool × Context Value :=
  let (body, ctx) := takeAs Value.statement? "Body" ctx
  let (condition, ctx) := takeAs Value.expr? "Cond" ctx
  match body, condition with
  | some body, some condition => finish ctx (.doWhile body condition m.span)
  | _, _ => (false, ctx)

def forLoop (ctx : Context Value) (m : Matched) : Bool × Context Value :=
  let (body, ctx) := takeAs Value.statement? "Body" ctx
  match body with
  | some body =>
    let (init, ctx) := takeAs Value.statement? "Init" ctx
    let (condition, ctx) := takeAs Value.expr? "Cond" ctx
    let (step, ctx) := takeAs Value.statement? "Step" ctx
    finish ctx (.forLoop init condition step body m.span)
  | none => (false, ctx)

def ret (ctx : Context Value) (m : Matched) : Bool × Context Value :=
  let (value, ctx) := takeAs Value.expr? "Value" ctx
  finish ctx (.ret value m.span)

def construction (ctx : Context Value) (m : Matched) : Bool × Context Value :=
  let (type, ctx) := takeAs Value.type? "TypeExpr" ctx
  let (name, ctx) := takeAs Value.identifier? "Identifier" ctx
  match type, name with
  | some type, some name =>
    let (init, ctx) := takeAs Value.expr? "Init" ctx
    finish ctx (.construction type name init m.span)
  | _, _ => (false, ctx)

def assignment (ctx : Context Value) (m : Matched) : Bool × Context Value :=
  let (target, ctx) := takeAs Value.expr? "Target" ctx
  let (value, ctx) := takeAs Value.expr? "Value" ctx
  match target, value with
  | some target, some value => finish ctx (.assignment target value m.span)
  | _, _ => (false, ctx)

def expressionBody (ctx : Context Value) (m : Matched) : Bool × Context Value :=
  match takeAs Value.expr? "Expr" ctx with
  | (some e, ctx) => finish ctx (.expression e m.span)
  | (none, ctx) => (false, ctx)

/-! ## Rules -/

def expressionAs (label : String) : Pattern := callAs label "Expression" 1

def statementAs (label : String) : Pattern := callAs label "Statement" 0

def must (c : Char) : Pattern := .expect (char c)

/-- A body and the semicolon that must follow it. -/
def terminated (name body : String) : Rule Value :=
  statementRule name (.act "End" (.seq (callAs "Body" body 0) (must ';')))
    |>.yields "Body"
    |>.predicate "End" terminate

def compoundRule : Rule Value :=
  statementRule "Compound"
      (sequence [
        .act "Open" (char '\x7b'),
        .many (statementAs "Item"),
        .expect (.act "Close" (char '\x7d'))])
    |>.action "Open" openBlock
    |>.postCall "Item" (pushItem "items")
    |>.predicate "Close" closeBlock

def ifRule : Rule Value :=
  statementRule "If"
      (.act "If" (sequence [
        .keyword "if",
        char '(',
        .expect (expressionAs "Cond"),
        must ')',
        .expect (statementAs "Then"),
        .opt (.seq (.keyword "else") (.expect (statementAs "Else")))]))
    |>.preCall "Cond" rvalue
    |>.predicate "If" ifElse

def whileRule : Rule Value :=
  statementRule "While"
      (.act "While" (sequence [
        .keyword "while",
        char '(',
        .expect (expressionAs "Cond"),
        must ')',
        .expect (statementAs "Body")]))
    |>.preCall "Cond" rvalue
    |>.predicate "While" whileLoop

def doWhileRule : Rule Value :=
  statementRule "DoWhile"
      (.act "DoWhile" (sequence [
        .keyword "do",
        .expect (statementAs "Body"),
        .expect (.keyword "while"),
        must '(',
        .expect (expressionAs "Cond"),
        must ')',
        must ';']))
    |>.preCall "Cond" rvalue
    |>.predicate "DoWhile" doWhile

def forRule : Rule Value :=
  statementRule "For"
      (.act "For" (sequence [
        .keyword "for",
        must '(',
        .opt (callAs "Init" "ForInit" 0),
        must ';',
        .opt (expressionAs "Cond"),
        must ';',
        .opt (callAs "Step" "ForStep" 0),
        must ')',
        .expect (statementAs "Body")]))
    |>.preCall "Cond" rvalue
    |>.predicate "For" forLoop

def returnRule : Rule Value :=
  statementRule "Return"
      (.act "Return" (sequence [.keyword "return", .opt (expressionAs "Value"), must ';']))
    |>.preCall "Value" rvalue
    |>.predicate "Return" ret

def breakRule : Rule Value :=
  statementRule "Break" (.act "Break" (.seq (.keyword "break") (must ';')))
    |>.predicate "Break" fun ctx m => finish ctx (.breakLoop m.span)

def continueRule : Rule Value :=
  statementRule "Continue" (.act "Continue" (.seq (.keyword "continue") (must ';')))
    |>.predicate "Continue" fun ctx m => finish ctx (.continueLoop m.span)

def constructionBodyRule : Rule Value :=
  statementRule "ConstructionBody"
      (.act "A0" (sequence [
        rule "TypeExpr",
        rule "Identifier",
        .opt (.seq (char '=') (.expect (expressionAs "Init")))]))
    |>.preCall "Init" rvalue
    |>.predicate "A0" construction

def assignmentBodyRule : Rule Value :=
  statementRule "AssignmentBody"
      (.act "A0" (sequence [
        callAs "Target" "Postfix" 1,
        .diff (char '=') (.text "=="),
        .expect (expressionAs "Value")]))
    |>.preCall "Target" lvalue
    |>.preCall "Value" rvalue
    |>.predicate "A0" assignment

def expressionBodyRule : Rule Value :=
  statementRule "ExpressionBody" (.act "A0" (expressionAs "Expr"))
    |>.preCall "Expr" rvalue
    |>.predicate "A0" expressionBody

def emptyRule : Rule Value :=
  statementRule "Empty" (.act "A0" (char ';'))
    |>.action "A0" fun ctx m => ctx.setValue (.statement (.empty m.span))

def grammar : GrammarDecl Value where
  name := grammarName
  references := [Lexical.grammarName, Identifiers.grammarName, Types.grammarName,
    Expressions.grammarName]
  links := [
    ("Identifier", Identifiers.qualified "Identifier"),
    ("TypeExpr", Types.qualified "TypeExpr"),
    ("Expression", Expressions.qualified "Expression"),
    ("Postfix", Expressions.qualified "Postfix"),
    ("SpacesAndComments", Lexical.qualified "spaces_and_comments")]
  rules := [
    oneOf "Statement" alternatives,
    compoundRule,
    ifRule,
    whileRule,
    doWhileRule,
    forRule,
    returnRule,
    breakRule,
    continueRule,
    terminated "Construction" "ConstructionBody",
    constructionBodyRule,
    terminated "Assignment" "AssignmentBody",
    assignmentBodyRule,
    terminated "ExpressionStatement" "ExpressionBody",
    expressionBodyRule,
    emptyRule,
    oneOf "ForInit" ["ConstructionBody", "AssignmentBody", "ExpressionBody"],
    oneOf "ForStep" ["AssignmentBody", "ExpressionBody"]]
  start := some "Statement"
  skip := some "SpacesAndComments"

def plan : Plan Value :=
  .provide Lexical.grammar (.requiring [
    (Identifiers.grammarName, Identifiers.plan),
    (Types.grammarName, Types.plan),
    (Expressions.grammarName, Expressions.plan)] (.done grammar))

end PegFront.Cminor.Statements
