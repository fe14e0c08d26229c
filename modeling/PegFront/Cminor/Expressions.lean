import PegFront.Cminor.Literals
import PegFront.Cminor.Words

/-!
# Expressions

One rule for each level of binding. Every rule inherits the mode of parsing under the name `ctx`; the
binary levels are left-associative and fold their operands as they go.
-/

namespace PegFront.Cminor.Expressions

open Pattern

def grammarName : String := "cminor.parser.ExpressionGrammar"

def qualified (rule : String) : String := qualify grammarName rule

def expressionRule (name : String) (definition : Pattern) : Rule Value :=
  Rule.new name definition |>.inherits "ctx" "ParsingContext" |>.yielding "Expr"

/-- The argument of a call that does not read an assignment target. -/
def rvalue (_ : Context Value) : List Value := [.mode {}]

/-- The argument of a call that reads an assignment target. -/
def lvalue (_ : Context Value) : List Value := [.mode { lvalue := true }]

/-! ## Actions -/

def setBinaryOp (ctx : Context Value) (m : Matched) : Bool × Context Value :=
  match BinaryOp.ofSymbol? m.text with
  | some op => (true, ctx.set "op" (.binaryOp op))
  | none => (false, ctx)

/-- Joins the value so far and a right operand by the operator between them. -/
def foldBinary (ctx : Context Value) (right : Value) : Context Value :=
  let op := (ctx.get? "op").bind Value.binaryOp?
  let (left, ctx) := takeValueAs Value.expr? ctx
  match op, left, right.expr? with
  | some op, some left, some right => ctx.setValue (.expr (.ofOperands op left right))
  | _, _, _ => ctx

def setUnaryOp (ctx : Context Value) (m : Matched) : Bool × Context Value :=
  match UnaryOp.ofSymbol? m.text with
  | some op => (true, ctx.set "op" (.unaryOp op))
  | none => (false, ctx)

/-- Puts the operator read before in front of its operand. -/
def applyUnary (ctx : Context Value) (operand : Value) : Context Value :=
  match (ctx.get? "op").bind Value.unaryOp?, operand.expr? with
  | some op, some e =>
    ctx.setValue (.expr (.unary op e ⟨e.span.file, ctx.start, e.span.stop⟩))
  | _, _ => ctx

/-- Replaces the value by a node around it that spans from the start of the rule to the end of the
matched text. -/
def wrapValue (wrap : Expr → Span → Expr) (ctx : Context Value) (m : Matched) :
    Bool × Context Value :=
  match takeValueAs Value.expr? ctx with
  | (some target, ctx) =>
    (true, ctx.setValue (.expr (wrap target ⟨m.span.file, ctx.start, m.span.stop⟩)))
  | (none, ctx) => (false, ctx)

def member (ctx : Context Value) (m : Matched) : Bool × Context Value :=
  match takeAs Value.identifier? "Identifier" ctx with
  | (some id, ctx) => wrapValue (fun target span => .member target id span) ctx m
  | (none, ctx) => (false, ctx)

def openArguments (ctx : Context Value) (_ : Matched) : Context Value := ctx.set "args" (.list [])

def invoke (ctx : Context Value) (m : Matched) : Bool × Context Value :=
  match takeItems Value.expr? "args" ctx with
  | (some arguments, ctx) => wrapValue (fun target span => .invoke target arguments span) ctx m
  | (none, ctx) => (false, ctx)

def indexed (ctx : Context Value) (m : Matched) : Bool × Context Value :=
  match takeAs Value.expr? "Index" ctx with
  | (some index, ctx) => wrapValue (fun target span => .index target index span) ctx m
  | (none, ctx) => (false, ctx)

/-- A literal is refused as an assignment target. -/
def literal (ctx : Context Value) (m : Matched) : Bool × Context Value :=
  if (modeOf ctx).lvalue then (false, ctx)
  else
    match takeAs Value.literal? "Literal" ctx with
    | (some l, ctx) => (true, ctx.setValue (.expr (.literal l m.span)))
    | (none, ctx) => (false, ctx)

def this (ctx : Context Value) (m : Matched) : Context Value := ctx.setValue (.expr (.this m.span))

def name (ctx : Context Value) (m : Matched) : Bool × Context Value :=
  match takeAs Value.identifier? "Identifier" ctx with
  | (some id, ctx) => (true, ctx.setValue (.expr (.name id m.span)))
  | (none, ctx) => (false, ctx)

/-! ## Rules -/

def expression : Rule Value :=
  expressionRule "Expression" (callAs "Disjunction" "Disjunction" 1)
    |>.forward "Disjunction" ["ctx"]
    |>.yields "Disjunction"

/-- An operand and any number of operators, each with an operand that must follow. -/
def binaryLevel (name operand : String) (operators : Pattern) : Rule Value :=
  expressionRule name
      (.seq (callAs "Left" operand 1)
        (.many (.seq (.act "Op" operators) (.expect (callAs "Right" operand 1)))))
    |>.forward "Left" ["ctx"]
    |>.forward "Right" ["ctx"]
    |>.yields "Left"
    |>.predicate "Op" setBinaryOp
    |>.postCall "Right" foldBinary

/-- The binary levels, from the loosest to the tightest. -/
def binaryLevels : List (Rule Value) := [
  binaryLevel "Disjunction" "Conjunction" (.text "||"),
  binaryLevel "Conjunction" "Equality" (.text "&&"),
  binaryLevel "Equality" "Relational" (.alt (.text "==") (.text "!=")),
  binaryLevel "Relational" "Shift" (choice [
    .text "<=", .text ">=", .diff (char '<') (.text "<<"), .diff (char '>') (.text ">>")]),
  binaryLevel "Shift" "Additive" (.alt (.text "<<") (.text ">>")),
  binaryLevel "Additive" "Multiplicative" (set "+-"),
  binaryLevel "Multiplicative" "Prefix" (set "*/%")]

def prefixRule : Rule Value :=
  expressionRule "Prefix"
      (.alt
        (.seq (.act "Op" (set "\\-+!~")) (.expect (callAs "Operand" "Prefix" 1)))
        (callAs "Postfix" "Postfix" 1))
    |>.forward "Operand" ["ctx"]
    |>.forward "Postfix" ["ctx"]
    |>.yields "Postfix"
    |>.predicate "Op" setUnaryOp
    |>.postCall "Operand" applyUnary

/-- A member access, a call or an index. -/
def suffix : Pattern :=
  choice [
    .act "Member" (.seq (char '.') (.expect (rule "Identifier"))),
    .act "Invoke" (sequence [
      .act "Open" (char '('),
      .opt (.list (callAs "Arg" "Expression" 1) (char ',')),
      .expect (char ')')]),
    .act "Indexed" (sequence [
      char '[',
      .expect (callAs "Index" "Expression" 1),
      .expect (char ']')])]

def postfixRule : Rule Value :=
  expressionRule "Postfix" (.seq (callAs "Primary" "Primary" 1) (.many suffix))
    |>.forward "Primary" ["ctx"]
    |>.yields "Primary"
    |>.preCall "Arg" rvalue
    |>.preCall "Index" rvalue
    |>.postCall "Arg" (pushItem "args")
    |>.action "Open" openArguments
    |>.predicate "Member" member
    |>.predicate "Invoke" invoke
    |>.predicate "Indexed" indexed

def primary : Rule Value :=
  expressionRule "Primary"
      (choice [
        sequence [char '(', callAs "Paren" "Expression" 1, .expect (char ')')],
        .act "Literal" (rule "Literal"),
        .act "This" (.keyword "this"),
        .act "Name" (rule "Identifier")])
    |>.forward "Paren" ["ctx"]
    |>.yields "Paren"
    |>.predicate "Literal" literal
    |>.action "This" this
    |>.predicate "Name" name

def grammar : GrammarDecl Value where
  name := grammarName
  references := [Lexical.grammarName, Identifiers.grammarName, Literals.grammarName]
  links := [
    ("Identifier", Identifiers.qualified "Identifier"),
    ("Literal", Literals.qualified "Literal"),
    ("SpacesAndComments", Lexical.qualified "spaces_and_comments")]
  rules := expression :: binaryLevels ++ [prefixRule, postfixRule, primary]
  start := some "Expression"
  skip := some "SpacesAndComments"

def plan : Plan Value :=
  .provide Lexical.grammar (.requiring [
    (Identifiers.grammarName, Identifiers.plan),
    (Literals.grammarName, Literals.plan)] (.done grammar))

end PegFront.Cminor.Expressions
