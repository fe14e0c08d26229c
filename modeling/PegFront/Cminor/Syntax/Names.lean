import PegFront.Cminor.Syntax

/-!
# Names of operators and types

Operators and basic types have a name in capitalised words; in documents it is written in lower case
with underscores between the words.
-/

namespace PegFront.Cminor

/-- Lower case, with an underscore before every capital but the first. -/
def snakeCase (name : String) : String :=
  match name.toList with
  | [] => ""
  | c :: cs =>
    String.ofList (c.toLower :: cs.flatMap fun d => if d.isUpper then ['_', d.toLower] else [d])

def BinaryOp.displayName : BinaryOp → String
  | .or => "Or"
  | .and => "And"
  | .equal => "Equal"
  | .notEqual => "NotEqual"
  | .less => "Less"
  | .greater => "Greater"
  | .lessOrEqual => "LessOrEqual"
  | .greaterOrEqual => "GreaterOrEqual"
  | .shiftLeft => "ShiftLeft"
  | .shiftRight => "ShiftRight"
  | .add => "Add"
  | .sub => "Sub"
  | .mul => "Mul"
  | .div => "Div"
  | .rem => "Rem"

def UnaryOp.displayName : UnaryOp → String
  | .plus => "Plus"
  | .neg => "Neg"
  | .not => "Not"
  | .complement => "Complement"

def BasicType.displayName : BasicType → String
  | .bool => "Bool"
  | .sbyte => "SByte"
  | .byte => "Byte"
  | .short => "Short"
  | .ushort => "UShort"
  | .int => "Int"
  | .uint => "UInt"
  | .long => "Long"
  | .ulong => "ULong"
  | .float => "Float"
  | .double => "Double"
  | .char => "Char"
  | .string => "String"
  | .void => "Void"

end PegFront.Cminor
