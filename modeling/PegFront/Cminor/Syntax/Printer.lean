import PegFront.Cminor.Syntax.Names
import PegFront.Number.Layout
import PegFront.Source.Documents

/-!
# Written forms of syntax trees

Three forms: expressions in prefix form (`display`), every node with its fields (`dump`), and JSON
(`toJson`). In JSON a node is an object of its kind and its span, and a kind with content is an object
of one member, named for the kind; a number that is not finite is null.
-/

namespace PegFront.Cminor

/-- A node of some kind with its span. -/
def dumpNode (type : String) (kind : Dump) (span : Span) : Dump :=
  .record type [("kind", kind), ("span", span.dump)]

def jsonNode (kind : Json) (span : Span) : Json := .object [("kind", kind), ("span", span.toJson)]

/-- A kind with content. -/
def jsonKind (kind : String) (content : Json) : Json := .object [(kind, content)]

/-! ## Leaves -/

namespace Identifier

def dump (id : Identifier) : Dump :=
  .record "Identifier" [("name", .string id.name), ("span", id.span.dump)]

def toJson (id : Identifier) : Json := .object [("name", .string id.name), ("span", id.span.toJson)]

end Identifier

namespace Literal

/-- Numbers are positional from a ten-thousandth up to sixteen places, and a half goes up. -/
def numberLayout : NumberLayout where
  tie := .up
  leastPlaces := -3
  mostPlaces := 16
  plus := ""
  infinity := "inf"

/-- The text of the value itself. -/
def display : Literal → String
  | .bool b => if b then "true" else "false"
  | .int n => toString n
  | .float x => numberLayout.write x
  | .char c => Text.quoteChar c
  | .string s => Text.quote s
  | .null => "null"

/-- The kind of value, in capitalised words. -/
def kindName : Literal → String
  | .bool _ => "Bool"
  | .int _ => "Int"
  | .float _ => "Float"
  | .char _ => "Char"
  | .string _ => "String"
  | .null => "Null"

def dump (l : Literal) : Dump :=
  match l with
  | .null => .atom l.kindName
  | _ => .wrapped l.kindName (.atom l.display)

def valueJson? : Literal → Option Json
  | .bool b => some (.bool b)
  | .int n => some (.nat n)
  | .float x => some (if x.isFinite then .float x else .null)
  | .char c => some (.string (String.ofList [c]))
  | .string s => some (.string s)
  | .null => none

def toJson (l : Literal) : Json :=
  .object (("kind", .string (snakeCase l.kindName)) :: l.valueJson?.toList.map fun v => ("value", v))

end Literal

def BinaryOp.toJson (op : BinaryOp) : Json := .string (snakeCase op.displayName)

def UnaryOp.toJson (op : UnaryOp) : Json := .string (snakeCase op.displayName)

def BasicType.toJson (t : BasicType) : Json := .string (snakeCase t.displayName)

/-! ## Expressions -/

namespace Expr

mutual

/-- Prefix form: operators before their operands in parentheses, suffixes after their target. -/
def display : Expr → String
  | .literal value _ => value.display
  | .name id _ => id.name
  | .this _ => "this"
  | .unary op operand _ => "(" ++ op.symbol ++ " " ++ display operand ++ ")"
  | .binary op left right _ =>
    "(" ++ op.symbol ++ " " ++ display left ++ " " ++ display right ++ ")"
  | .member target id _ => display target ++ "." ++ id.name
  | .invoke target arguments _ =>
    display target ++ "(" ++ ", ".intercalate (displayAll arguments) ++ ")"
  | .index target i _ => display target ++ "[" ++ display i ++ "]"

def displayAll : List Expr → List String
  | [] => []
  | e :: es => display e :: displayAll es

end

mutual

def dump : Expr → Dump
  | .literal value s => dumpNode "Expr" (.wrapped "Literal" value.dump) s
  | .name id s => dumpNode "Expr" (.wrapped "Identifier" id.dump) s
  | .this s => dumpNode "Expr" (.atom "This") s
  | .unary op operand s =>
    dumpNode "Expr"
      (.record "Unary" [("op", .atom op.displayName), ("operand", dump operand)]) s
  | .binary op left right s =>
    dumpNode "Expr"
      (.record "Binary"
        [("op", .atom op.displayName), ("left", dump left), ("right", dump right)]) s
  | .member target id s =>
    dumpNode "Expr" (.record "Member" [("target", dump target), ("member", id.dump)]) s
  | .invoke target arguments s =>
    dumpNode "Expr"
      (.record "Invoke" [("target", dump target), ("arguments", .list (dumpAll arguments))]) s
  | .index target i s =>
    dumpNode "Expr" (.record "Index" [("target", dump target), ("index", dump i)]) s

def dumpAll : List Expr → List Dump
  | [] => []
  | e :: es => dump e :: dumpAll es

end

mutual

def toJson : Expr → Json
  | .literal value s => jsonNode (jsonKind "literal" value.toJson) s
  | .name id s => jsonNode (jsonKind "identifier" id.toJson) s
  | .this s => jsonNode (.string "this") s
  | .unary op operand s =>
    jsonNode (jsonKind "unary" (.object [("op", op.toJson), ("operand", toJson operand)])) s
  | .binary op left right s =>
    jsonNode (jsonKind "binary"
      (.object [("op", op.toJson), ("left", toJson left), ("right", toJson right)])) s
  | .member target id s =>
    jsonNode (jsonKind "member"
      (.object [("target", toJson target), ("member", id.toJson)])) s
  | .invoke target arguments s =>
    jsonNode (jsonKind "invoke"
      (.object [("target", toJson target), ("arguments", .array (jsonAll arguments))])) s
  | .index target i s =>
    jsonNode (jsonKind "index" (.object [("target", toJson target), ("index", toJson i)])) s

def jsonAll : List Expr → List Json
  | [] => []
  | e :: es => toJson e :: jsonAll es

end

end Expr

/-! ## Types -/

namespace TypeExpr

def dump : TypeExpr → Dump
  | .basic t s => dumpNode "TypeExpr" (.wrapped "Basic" (.atom t.displayName)) s
  | .named name s => dumpNode "TypeExpr" (.wrapped "Named" name.dump) s
  | .array element s => dumpNode "TypeExpr" (.wrapped "Array" element.dump) s

def toJson : TypeExpr → Json
  | .basic t s => jsonNode (jsonKind "basic" t.toJson) s
  | .named name s => jsonNode (jsonKind "named" name.toJson) s
  | .array element s => jsonNode (jsonKind "array" element.toJson) s

end TypeExpr

/-! ## Statements -/

namespace Statement

def dumpExpr? (e : Option Expr) : Dump := .option (e.map Expr.dump)

def jsonExpr? (e : Option Expr) : Json := .ofOption (e.map Expr.toJson)

mutual

def dump : Statement → Dump
  | .compound items s => dumpNode "Statement" (.wrapped "Compound" (.list (dumpAll items))) s
  | .expression e s => dumpNode "Statement" (.wrapped "Expression" e.dump) s
  | .assignment target value s =>
    dumpNode "Statement"
      (.record "Assignment" [("target", target.dump), ("value", value.dump)]) s
  | .construction type name init s =>
    dumpNode "Statement"
      (.record "Construction"
        [("type_expr", type.dump), ("name", name.dump), ("init", dumpExpr? init)]) s
  | .ifElse condition thenBranch elseBranch s =>
    dumpNode "Statement"
      (.record "If" [("condition", condition.dump), ("then_branch", dump thenBranch),
        ("else_branch", dump? elseBranch)]) s
  | .whileLoop condition body s =>
    dumpNode "Statement" (.record "While" [("condition", condition.dump), ("body", dump body)]) s
  | .doWhile body condition s =>
    dumpNode "Statement" (.record "DoWhile" [("body", dump body), ("condition", condition.dump)]) s
  | .forLoop init condition step body s =>
    dumpNode "Statement"
      (.record "For" [("init", dump? init), ("condition", dumpExpr? condition),
        ("step", dump? step), ("body", dump body)]) s
  | .ret value s => dumpNode "Statement" (.wrapped "Return" (dumpExpr? value)) s
  | .breakLoop s => dumpNode "Statement" (.atom "Break") s
  | .continueLoop s => dumpNode "Statement" (.atom "Continue") s
  | .empty s => dumpNode "Statement" (.atom "Empty") s

def dumpAll : List Statement → List Dump
  | [] => []
  | s :: ss => dump s :: dumpAll ss

def dump? : Option Statement → Dump
  | none => .option none
  | some s => .option (some (dump s))

end

mutual

def toJson : Statement → Json
  | .compound items s => jsonNode (jsonKind "compound" (.array (jsonAll items))) s
  | .expression e s => jsonNode (jsonKind "expression" e.toJson) s
  | .assignment target value s =>
    jsonNode (jsonKind "assignment"
      (.object [("target", target.toJson), ("value", value.toJson)])) s
  | .construction type name init s =>
    jsonNode (jsonKind "construction"
      (.object [("type_expr", type.toJson), ("name", name.toJson), ("init", jsonExpr? init)])) s
  | .ifElse condition thenBranch elseBranch s =>
    jsonNode (jsonKind "if"
      (.object [("condition", condition.toJson), ("then_branch", toJson thenBranch),
        ("else_branch", toJson? elseBranch)])) s
  | .whileLoop condition body s =>
    jsonNode (jsonKind "while"
      (.object [("condition", condition.toJson), ("body", toJson body)])) s
  | .doWhile body condition s =>
    jsonNode (jsonKind "do_while"
      (.object [("body", toJson body), ("condition", condition.toJson)])) s
  | .forLoop init condition step body s =>
    jsonNode (jsonKind "for"
      (.object [("init", toJson? init), ("condition", jsonExpr? condition),
        ("step", toJson? step), ("body", toJson body)])) s
  | .ret value s => jsonNode (jsonKind "return" (jsonExpr? value)) s
  | .breakLoop s => jsonNode (.string "break") s
  | .continueLoop s => jsonNode (.string "continue") s
  | .empty s => jsonNode (.string "empty") s

def jsonAll : List Statement → List Json
  | [] => []
  | s :: ss => toJson s :: jsonAll ss

def toJson? : Option Statement → Json
  | none => .null
  | some s => toJson s

end

end Statement

/-! ## Compile units -/

namespace Parameter

def dump (p : Parameter) : Dump :=
  .record "Parameter" [("type_expr", p.type.dump), ("name", p.name.dump), ("span", p.span.dump)]

def toJson (p : Parameter) : Json :=
  .object [("type_expr", p.type.toJson), ("name", p.name.toJson), ("span", p.span.toJson)]

end Parameter

namespace FunctionDef

def dump (f : FunctionDef) : Dump :=
  .record "Function" [("return_type", f.returnType.dump), ("name", f.name.dump),
    ("parameters", .list (f.parameters.map (·.dump))), ("body", f.body.dump),
    ("span", f.span.dump)]

def toJson (f : FunctionDef) : Json :=
  .object [("return_type", f.returnType.toJson), ("name", f.name.toJson),
    ("parameters", .array (f.parameters.map (·.toJson))), ("body", f.body.toJson),
    ("span", f.span.toJson)]

end FunctionDef

namespace CompileUnit

def dump (u : CompileUnit) : Dump :=
  .record "CompileUnit" [("file_name", .string u.file),
    ("functions", .list (u.functions.map (·.dump))), ("span", u.span.dump)]

def toJson (u : CompileUnit) : Json :=
  .object [("file_name", .string u.file), ("functions", .array (u.functions.map (·.toJson))),
    ("span", u.span.toJson)]

end CompileUnit

end PegFront.Cminor
