import PegFront.Cminor.Syntax.Printer
import PegFront.Peg.Rule

/-!
# Values of the grammars

What the rules of the cminor grammars pass to each other: modes of parsing, operators, pieces of
syntax and lists of them.
-/

namespace PegFront.Cminor

/-- How an expression is read. -/
structure Mode where
  /-- Whether it is the target of an assignment, where literals are refused. -/
  lvalue : Bool := false
deriving DecidableEq, Repr

inductive Value where
  | mode (mode : Mode)
  | identifier (id : Identifier)
  | literal (literal : Literal)
  | expr (expr : Expr)
  | binaryOp (op : BinaryOp)
  | unaryOp (op : UnaryOp)
  | type (type : TypeExpr)
  | statement (statement : Statement)
  | parameter (parameter : Parameter)
  | function (function : FunctionDef)
  | compileUnit (unit : CompileUnit)
  | list (items : List Value)

/-- The kinds of values. -/
inductive ValueKind where
  | mode
  | identifier
  | literal
  | expr
  | binaryOp
  | unaryOp
  | type
  | statement
  | parameter
  | function
  | compileUnit
  | list
deriving DecidableEq, Repr

def ValueKind.typeName : ValueKind → String
  | .mode => "ParsingContext"
  | .identifier => "Identifier"
  | .literal => "Literal"
  | .expr => "Expr"
  | .binaryOp => "BinaryOp"
  | .unaryOp => "UnaryOp"
  | .type => "TypeExpr"
  | .statement => "Statement"
  | .parameter => "Parameter"
  | .function => "Function"
  | .compileUnit => "CompileUnit"
  | .list => "List"

namespace Mode

def dump (m : Mode) : Dump := .record "ParsingContext" [("parsing_lvalue", .bool m.lvalue)]

def toJson (m : Mode) : Json := .object [("parsing_lvalue", .bool m.lvalue)]

end Mode

namespace Value

def kind : Value → ValueKind
  | .mode _ => .mode
  | .identifier _ => .identifier
  | .literal _ => .literal
  | .expr _ => .expr
  | .binaryOp _ => .binaryOp
  | .unaryOp _ => .unaryOp
  | .type _ => .type
  | .statement _ => .statement
  | .parameter _ => .parameter
  | .function _ => .function
  | .compileUnit _ => .compileUnit
  | .list _ => .list

def typeName (v : Value) : String := v.kind.typeName

def mode? : Value → Option Mode
  | .mode m => some m
  | _ => none

def identifier? : Value → Option Identifier
  | .identifier id => some id
  | _ => none

def literal? : Value → Option Literal
  | .literal l => some l
  | _ => none

def expr? : Value → Option Expr
  | .expr e => some e
  | _ => none

def binaryOp? : Value → Option BinaryOp
  | .binaryOp op => some op
  | _ => none

def unaryOp? : Value → Option UnaryOp
  | .unaryOp op => some op
  | _ => none

def type? : Value → Option TypeExpr
  | .type t => some t
  | _ => none

def statement? : Value → Option Statement
  | .statement s => some s
  | _ => none

def parameter? : Value → Option Parameter
  | .parameter p => some p
  | _ => none

def function? : Value → Option FunctionDef
  | .function f => some f
  | _ => none

def compileUnit? : Value → Option CompileUnit
  | .compileUnit u => some u
  | _ => none

def list? : Value → Option (List Value)
  | .list items => some items
  | _ => none

/-- A value of another kind was needed. -/
def unexpected (v : Value) (needed : ValueKind) : ParseError :=
  { cause := .unexpectedValue needed.typeName v.typeName, phase := "value" }

/-- The content of a value of the needed kind. -/
def expect {α : Type} (needed : ValueKind) (content? : Value → Option α) (v : Value) :
    Except ParseError α :=
  match content? v with
  | some a => .ok a
  | none => .error (v.unexpected needed)

mutual

def toJson : Value → Json
  | .mode m => m.toJson
  | .identifier id => id.toJson
  | .literal l => l.toJson
  | .expr e => e.toJson
  | .binaryOp op => op.toJson
  | .unaryOp op => op.toJson
  | .type t => t.toJson
  | .statement s => s.toJson
  | .parameter p => p.toJson
  | .function f => f.toJson
  | .compileUnit u => u.toJson
  | .list items => .array (jsonAll items)

def jsonAll : List Value → List Json
  | [] => []
  | v :: vs => toJson v :: jsonAll vs

end

mutual

def dump : Value → Dump
  | .mode m => .wrapped "Context" m.dump
  | .identifier id => .wrapped "Identifier" id.dump
  | .literal l => .wrapped "Literal" l.dump
  | .expr e => .wrapped "Expr" e.dump
  | .binaryOp op => .wrapped "BinaryOp" (.atom op.displayName)
  | .unaryOp op => .wrapped "UnaryOp" (.atom op.displayName)
  | .type t => .wrapped "Type" t.dump
  | .statement s => .wrapped "Statement" s.dump
  | .parameter p => .wrapped "Parameter" p.dump
  | .function f => .wrapped "Function" f.dump
  | .compileUnit u => .wrapped "CompileUnit" u.dump
  | .list items => .wrapped "List" (.list (dumpAll items))

def dumpAll : List Value → List Dump
  | [] => []
  | v :: vs => dump v :: dumpAll vs

end

/-- The short form of a value that has one. -/
def display? : Value → Option String
  | .expr e => some e.display
  | .identifier id => some id.name
  | _ => none

end Value

/-! ## Values in contexts -/

/-- The mode an expression rule inherits. -/
def modeOf (ctx : Context Value) : Mode := ((ctx.get? "ctx").bind Value.mode?).getD {}

/-- Appends to the list kept under a name, or starts one. -/
def pushItem (name : String) (ctx : Context Value) (v : Value) : Context Value :=
  match ctx.get? name with
  | some (.list items) => ctx.set name (.list (items ++ [v]))
  | _ => ctx.set name (.list [v])

/-- Takes the value kept under a name, if it has the needed content. -/
def takeAs {α : Type} (content? : Value → Option α) (name : String) (ctx : Context Value) :
    Option α × Context Value :=
  let (v, ctx) := ctx.take name
  (v.bind content?, ctx)

/-- Takes the list kept under a name, if all items have the needed content; no list is an empty
one. -/
def takeItems {α : Type} (content? : Value → Option α) (name : String) (ctx : Context Value) :
    Option (List α) × Context Value :=
  let (v, ctx) := ctx.take name
  match v with
  | none => (some [], ctx)
  | some v => (v.list?.bind fun items => items.mapM content?, ctx)

/-- Takes the value of the rule, if it has the needed content. -/
def takeValueAs {α : Type} (content? : Value → Option α) (ctx : Context Value) :
    Option α × Context Value :=
  let (v, ctx) := ctx.takeValue
  (v.bind content?, ctx)

end PegFront.Cminor
