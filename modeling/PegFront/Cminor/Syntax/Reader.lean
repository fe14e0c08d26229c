import PegFront.Cminor.Front
import PegFront.Peg.Documents

/-!
# Syntax trees from documents

Reads back the JSON form of syntax trees. Trees are read with fuel for the nesting of the document.
-/

namespace PegFront.Cminor

open Json.Decode

def Mode.ofJson? (v : Json) : Option Mode := do
  match ← fields? ["parsing_lvalue"] v with
  | [some lvalue] => return ⟨← lvalue.bool?⟩
  | _ => none

def SourceKind.ofJson? (v : Json) : Option SourceKind :=
  choice? SourceKind.all (fun k => snakeCase k.displayName) v

def BinaryOp.ofJson? (v : Json) : Option BinaryOp :=
  choice? BinaryOp.all (fun op => snakeCase op.displayName) v

def UnaryOp.ofJson? (v : Json) : Option UnaryOp :=
  choice? UnaryOp.all (fun op => snakeCase op.displayName) v

def BasicType.ofJson? (v : Json) : Option BasicType :=
  choice? BasicType.all (fun t => snakeCase t.displayName) v

def Identifier.ofJson? (v : Json) : Option Identifier := do
  match ← fields? ["name", "span"] v with
  | [some name, some span] => return ⟨← name.string?, ← Span.ofJson? span⟩
  | _ => none

namespace Literal

/-- The literal of a kind with a value; only null may do without one. -/
def ofContent? (kind : String) (value : Option Json) : Option Literal :=
  match kind, value with
  | "null", none => some .null
  | "null", some .null => some .null
  | "bool", some v => v.bool?.map .bool
  | "int", some v => (word64? v).map .int
  | "float", some v => (float? v).map .float
  | "char", some v => (char? v).map .char
  | "string", some v => v.string?.map .string
  | _, _ => none

def ofJson? (v : Json) : Option Literal := do
  match ← fields? ["kind", "value"] v with
  | [some kind, value] => ofContent? (← plainVariant? kind) value
  | _ => none

end Literal

/-- Kind and span of a node. -/
def node? (v : Json) : Option (Json × Span) := do
  match ← fields? ["kind", "span"] v with
  | [some kind, some span] => return (kind, ← Span.ofJson? span)
  | _ => none

/-- The fields of a variant with named content. -/
def variantFields? (names : List String) : Json → Option (List (Option Json))
  | .object members => fields? names (.object members)
  | _ => none

namespace Expr

def decode? : Nat → Json → Option Expr
  | 0, _ => none
  | fuel + 1, v => do
    let (kind, span) ← node? v
    match ← variant? kind with
    | ("this", none) => return .this span
    | ("this", some .null) => return .this span
    | ("literal", some content) => return .literal (← Literal.ofJson? content) span
    | ("identifier", some content) => return .name (← Identifier.ofJson? content) span
    | ("unary", some content) =>
      match ← variantFields? ["op", "operand"] content with
      | [some op, some operand] => return .unary (← UnaryOp.ofJson? op) (← decode? fuel operand) span
      | _ => none
    | ("binary", some content) =>
      match ← variantFields? ["op", "left", "right"] content with
      | [some op, some left, some right] =>
        return .binary (← BinaryOp.ofJson? op) (← decode? fuel left) (← decode? fuel right) span
      | _ => none
    | ("member", some content) =>
      match ← variantFields? ["target", "member"] content with
      | [some target, some id] =>
        return .member (← decode? fuel target) (← Identifier.ofJson? id) span
      | _ => none
    | ("invoke", some content) =>
      match ← variantFields? ["target", "arguments"] content with
      | [some target, some arguments] =>
        return .invoke (← decode? fuel target) (← list? (decode? fuel) arguments) span
      | _ => none
    | ("index", some content) =>
      match ← variantFields? ["target", "index"] content with
      | [some target, some i] => return .index (← decode? fuel target) (← decode? fuel i) span
      | _ => none
    | _ => none

def ofJson? (v : Json) : Option Expr := decode? (v.depth + 1) v

end Expr

namespace TypeExpr

def decode? : Nat → Json → Option TypeExpr
  | 0, _ => none
  | fuel + 1, v => do
    let (kind, span) ← node? v
    match ← variant? kind with
    | ("basic", some content) => return .basic (← BasicType.ofJson? content) span
    | ("named", some content) => return .named (← Identifier.ofJson? content) span
    | ("array", some content) => return .array (← decode? fuel content) span
    | _ => none

def ofJson? (v : Json) : Option TypeExpr := decode? (v.depth + 1) v

end TypeExpr

namespace Statement

def decode? : Nat → Json → Option Statement
  | 0, _ => none
  | fuel + 1, v => do
    let (kind, span) ← node? v
    match ← variant? kind with
    | ("break", none) | ("break", some .null) => return .breakLoop span
    | ("continue", none) | ("continue", some .null) => return .continueLoop span
    | ("empty", none) | ("empty", some .null) => return .empty span
    | ("compound", some content) => return .compound (← list? (decode? fuel) content) span
    | ("expression", some content) => return .expression (← Expr.ofJson? content) span
    | ("return", some content) => return .ret (← optional? Expr.ofJson? (some content)) span
    | ("assignment", some content) =>
      match ← variantFields? ["target", "value"] content with
      | [some target, some value] =>
        return .assignment (← Expr.ofJson? target) (← Expr.ofJson? value) span
      | _ => none
    | ("construction", some content) =>
      match ← variantFields? ["type_expr", "name", "init"] content with
      | [some type, some name, init] =>
        return .construction (← TypeExpr.ofJson? type) (← Identifier.ofJson? name)
          (← optional? Expr.ofJson? init) span
      | _ => none
    | ("if", some content) =>
      match ← variantFields? ["condition", "then_branch", "else_branch"] content with
      | [some condition, some thenBranch, elseBranch] =>
        return .ifElse (← Expr.ofJson? condition) (← decode? fuel thenBranch)
          (← optional? (decode? fuel) elseBranch) span
      | _ => none
    | ("while", some content) =>
      match ← variantFields? ["condition", "body"] content with
      | [some condition, some body] =>
        return .whileLoop (← Expr.ofJson? condition) (← decode? fuel body) span
      | _ => none
    | ("do_while", some content) =>
      match ← variantFields? ["body", "condition"] content with
      | [some body, some condition] =>
        return .doWhile (← decode? fuel body) (← Expr.ofJson? condition) span
      | _ => none
    | ("for", some content) =>
      match ← variantFields? ["init", "condition", "step", "body"] content with
      | [init, condition, step, some body] =>
        return .forLoop (← optional? (decode? fuel) init) (← optional? Expr.ofJson? condition)
          (← optional? (decode? fuel) step) (← decode? fuel body) span
      | _ => none
    | _ => none

def ofJson? (v : Json) : Option Statement := decode? (v.depth + 1) v

end Statement

def Parameter.ofJson? (v : Json) : Option Parameter := do
  match ← fields? ["type_expr", "name", "span"] v with
  | [some type, some name, some span] =>
    return ⟨← TypeExpr.ofJson? type, ← Identifier.ofJson? name, ← Span.ofJson? span⟩
  | _ => none

def FunctionDef.ofJson? (v : Json) : Option FunctionDef := do
  match ← fields? ["return_type", "name", "parameters", "body", "span"] v with
  | [some returnType, some name, some parameters, some body, some span] =>
    return ⟨← TypeExpr.ofJson? returnType, ← Identifier.ofJson? name,
      ← list? Parameter.ofJson? parameters, ← Statement.ofJson? body, ← Span.ofJson? span⟩
  | _ => none

def CompileUnit.ofJson? (v : Json) : Option CompileUnit := do
  match ← fields? ["file_name", "functions", "span"] v with
  | [some file, some functions, some span] =>
    return ⟨← file.string?, ← list? FunctionDef.ofJson? functions, ← Span.ofJson? span⟩
  | _ => none

end PegFront.Cminor
