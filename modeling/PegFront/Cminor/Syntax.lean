import PegFront.Number.Binary64
import PegFront.Source.Span

/-!
# Syntax trees

The trees of cminor sources. Every node carries the span of the text it was built from; parentheses
leave no node behind.
-/

namespace PegFront.Cminor

structure Identifier where
  name : String
  span : Span
deriving DecidableEq, Repr

/-! ## Expressions -/

inductive Literal where
  | bool (value : Bool)
  | int (value : Nat)
  | float (value : Binary64)
  | char (value : Char)
  | string (value : String)
  | null
deriving DecidableEq, Repr

inductive BinaryOp where
  | or
  | and
  | equal
  | notEqual
  | less
  | greater
  | lessOrEqual
  | greaterOrEqual
  | shiftLeft
  | shiftRight
  | add
  | sub
  | mul
  | div
  | rem
deriving DecidableEq, Repr

namespace BinaryOp

def all : List BinaryOp :=
  [.or, .and, .equal, .notEqual, .less, .greater, .lessOrEqual, .greaterOrEqual, .shiftLeft,
    .shiftRight, .add, .sub, .mul, .div, .rem]

def symbol : BinaryOp → String
  | .or => "||"
  | .and => "&&"
  | .equal => "=="
  | .notEqual => "!="
  | .less => "<"
  | .greater => ">"
  | .lessOrEqual => "<="
  | .greaterOrEqual => ">="
  | .shiftLeft => "<<"
  | .shiftRight => ">>"
  | .add => "+"
  | .sub => "-"
  | .mul => "*"
  | .div => "/"
  | .rem => "%"

def ofSymbol? (symbol : String) : Option BinaryOp := all.find? (·.symbol == symbol)

end BinaryOp

inductive UnaryOp where
  | plus
  | neg
  | not
  | complement
deriving DecidableEq, Repr

namespace UnaryOp

def all : List UnaryOp := [.plus, .neg, .not, .complement]

def symbol : UnaryOp → String
  | .plus => "+"
  | .neg => "-"
  | .not => "!"
  | .complement => "~"

def ofSymbol? (symbol : String) : Option UnaryOp := all.find? (·.symbol == symbol)

end UnaryOp

inductive Expr where
  | literal (value : Literal) (span : Span)
  | name (id : Identifier) (span : Span)
  | this (span : Span)
  | unary (op : UnaryOp) (operand : Expr) (span : Span)
  | binary (op : BinaryOp) (left right : Expr) (span : Span)
  | member (target : Expr) (member : Identifier) (span : Span)
  | invoke (target : Expr) (arguments : List Expr) (span : Span)
  | index (target index : Expr) (span : Span)
deriving Inhabited

namespace Expr

def span : Expr → Span
  | .literal _ s | .name _ s | .this s | .unary _ _ s | .binary _ _ _ s | .member _ _ s
  | .invoke _ _ s | .index _ _ s => s

/-- A binary node over both operands. -/
def ofOperands (op : BinaryOp) (left right : Expr) : Expr :=
  .binary op left right (left.span.merge right.span)

def isLiteral : Expr → Bool
  | .literal .. => true
  | _ => false

end Expr

/-! ## Types -/

inductive BasicType where
  | bool
  | sbyte
  | byte
  | short
  | ushort
  | int
  | uint
  | long
  | ulong
  | float
  | double
  | char
  | string
  | void
deriving DecidableEq, Repr

namespace BasicType

def all : List BasicType :=
  [.bool, .sbyte, .byte, .short, .ushort, .int, .uint, .long, .ulong, .float, .double, .char,
    .string, .void]

def keyword : BasicType → String
  | .bool => "bool"
  | .sbyte => "sbyte"
  | .byte => "byte"
  | .short => "short"
  | .ushort => "ushort"
  | .int => "int"
  | .uint => "uint"
  | .long => "long"
  | .ulong => "ulong"
  | .float => "float"
  | .double => "double"
  | .char => "char"
  | .string => "string"
  | .void => "void"

def ofKeyword? (word : String) : Option BasicType := all.find? (·.keyword == word)

end BasicType

inductive TypeExpr where
  | basic (type : BasicType) (span : Span)
  /-- A class name, dots included. -/
  | named (name : Identifier) (span : Span)
  | array (element : TypeExpr) (span : Span)
deriving DecidableEq, Repr

def TypeExpr.span : TypeExpr → Span
  | .basic _ s | .named _ s | .array _ s => s

/-! ## Statements -/

inductive Statement where
  | compound (items : List Statement) (span : Span)
  | expression (expr : Expr) (span : Span)
  | assignment (target value : Expr) (span : Span)
  | construction (type : TypeExpr) (name : Identifier) (init : Option Expr) (span : Span)
  | ifElse (condition : Expr) (thenBranch : Statement) (elseBranch : Option Statement) (span : Span)
  | whileLoop (condition : Expr) (body : Statement) (span : Span)
  | doWhile (body : Statement) (condition : Expr) (span : Span)
  | forLoop (init : Option Statement) (condition : Option Expr) (step : Option Statement)
      (body : Statement) (span : Span)
  | ret (value : Option Expr) (span : Span)
  | breakLoop (span : Span)
  | continueLoop (span : Span)
  | empty (span : Span)
deriving Inhabited

namespace Statement

def span : Statement → Span
  | .compound _ s | .expression _ s | .assignment _ _ s | .construction _ _ _ s | .ifElse _ _ _ s
  | .whileLoop _ _ s | .doWhile _ _ s | .forLoop _ _ _ _ s | .ret _ s | .breakLoop s
  | .continueLoop s | .empty s => s

def withSpan (s : Span) : Statement → Statement
  | .compound items _ => .compound items s
  | .expression e _ => .expression e s
  | .assignment target value _ => .assignment target value s
  | .construction type name init _ => .construction type name init s
  | .ifElse condition thenBranch elseBranch _ => .ifElse condition thenBranch elseBranch s
  | .whileLoop condition body _ => .whileLoop condition body s
  | .doWhile body condition _ => .doWhile body condition s
  | .forLoop init condition step body _ => .forLoop init condition step body s
  | .ret value _ => .ret value s
  | .breakLoop _ => .breakLoop s
  | .continueLoop _ => .continueLoop s
  | .empty _ => .empty s

/-- Moves the end of the span forward. -/
def extendTo (s : Statement) (stop : Nat) : Statement := s.withSpan (s.span.extendTo stop)

/-- The statements of a block. -/
def children? : Statement → Option (List Statement)
  | .compound items _ => some items
  | _ => none

end Statement

/-! ## Compile units -/

structure Parameter where
  type : TypeExpr
  name : Identifier
  span : Span
deriving DecidableEq, Repr

structure FunctionDef where
  returnType : TypeExpr
  name : Identifier
  parameters : List Parameter
  body : Statement
  span : Span

structure CompileUnit where
  file : String
  functions : List FunctionDef
  span : Span

/-- The first function with a name. -/
def CompileUnit.function? (u : CompileUnit) (name : String) : Option FunctionDef :=
  u.functions.find? (·.name.name == name)

end PegFront.Cminor
