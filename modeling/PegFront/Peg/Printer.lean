import PegFront.Peg.Pattern

/-!
# Grammar text

Patterns written as grammar text. Binary operators bind in the order choice, difference, sequence and
list, and nest to the left; an operand that binds less than its place asks for is put in parentheses.
`display` shows actions and the labels and arities of calls, `describe` leaves them out: it names
what was expected at a place in the input.
-/

namespace PegFront

def CharKind.display : CharKind → String
  | .any => "anychar"
  | .space => "space"
  | .letter => "letter"
  | .digit => "digit"
  | .hexDigit => "hexdigit"
  | .punctuation => "punctuation"
  | .wordStart => "idstart"
  | .wordChar => "idcont"
  | .exactly c => "'" ++ Text.escapeAscii [c] ++ "'"
  | .oneOf set => "[" ++ set.text ++ "]"

def Call.write (details : Bool) (c : Call) : String :=
  (if details && c.label != c.rule then c.label ++ ":" else "") ++ c.rule ++
    (if details && c.arity != 0 then "/" ++ toString c.arity else "")

namespace Pattern

/-- How tightly the outermost operator of a pattern binds. -/
def level : Pattern → Nat
  | .alt .. => 1
  | .diff .. => 2
  | .seq .. | .list .. => 3
  | .opt .. | .many .. | .many1 .. | .expect .. | .lookahead .. | .notAhead .. => 4
  | _ => 5

def parenthesize (needed : Bool) (text : String) : String :=
  if needed then "(" ++ text ++ ")" else text

/-- Text of a pattern at a place that asks for a binding of at least `least`. -/
def write (details : Bool) (least : Nat) : Pattern → String
  | .act action p =>
    if details then write details 5 p ++ "\x7b" ++ action ++ "\x7d" else write details least p
  | .empty => "empty"
  | .one kind => kind.display
  | .text literal => "\"" ++ Text.escapeAscii literal.toList ++ "\""
  | .keyword word => "keyword(\"" ++ word ++ "\")"
  | .keywords selector words =>
    "keyword_list(" ++ write details 0 selector ++ ", [" ++
      ", ".intercalate (words.map fun w => "\"" ++ w ++ "\"") ++ "])"
  | .seq a b => parenthesize (3 < least) (write details 3 a ++ " " ++ write details 4 b)
  | .alt a b => parenthesize (1 < least) (write details 1 a ++ " | " ++ write details 2 b)
  | .diff a b => parenthesize (2 < least) (write details 2 a ++ " - " ++ write details 3 b)
  | .list a b => parenthesize (3 < least) (write details 4 a ++ " % " ++ write details 4 b)
  | .opt p => parenthesize (4 < least) (write details 5 p ++ "?")
  | .many p => parenthesize (4 < least) (write details 5 p ++ "*")
  | .many1 p => parenthesize (4 < least) (write details 5 p ++ "+")
  | .expect p => parenthesize (4 < least) (write details 5 p ++ "!")
  | .lookahead p => parenthesize (4 < least) ("&" ++ write details 5 p)
  | .notAhead p => parenthesize (4 < least) ("!" ++ write details 5 p)
  | .token p => "token(" ++ write details 0 p ++ ")"
  | .call c => c.write details

def display (p : Pattern) : String := p.write true 0

def describe (p : Pattern) : String := p.write false 0

end Pattern

end PegFront
