import PegFront.Cminor.Value
import PegFront.Peg.Lexical

/-!
# Literals

The shapes of literals come from the lexical grammar; the actions here decode the matched text.
Integers that do not fit in 64 bits are errors, and an escape that names no char refuses the match.
-/

namespace PegFront.Cminor

open Pattern

/-! ## Decoding -/

def digitValue (c : Char) : Nat :=
  if c.isDigit then c.toNat - '0'.toNat
  else if 'a' ≤ c then c.toNat - 'a'.toNat + 10
  else c.toNat - 'A'.toNat + 10

/-- Value of a run of digits in a base. -/
def numeral (base : Nat) (digits : List Char) : Nat :=
  digits.foldl (fun n d => n * base + digitValue d) 0

/-- The char with a code point, if there is one. -/
def scalar? (n : Nat) : Option Char :=
  if n < 0xD800 || (0xDFFF < n && n ≤ 0x10FFFF) then some (Char.ofNat n) else none

/-- The char a non-empty run of digits names. -/
def numericEscape? (base : Nat) (digits : List Char) : Option Char :=
  if digits.isEmpty then none else scalar? (numeral base digits)

/-- The char a single letter or sign stands for after a backslash. -/
def simpleEscape? : Char → Option Char
  | 'n' => some '\n'
  | 'r' => some '\r'
  | 't' => some '\t'
  | 'a' => some '\x07'
  | 'b' => some '\x08'
  | 'f' => some '\x0c'
  | 'v' => some '\x0b'
  | '\'' => some '\''
  | '"' => some '"'
  | '\\' => some '\\'
  | '?' => some '?'
  | _ => none

/-- Reads the escape after a backslash: the char it stands for and what is left. -/
def escape? (c : Char) (rest : List Char) : Option (Char × List Char) :=
  if c = 'x' || c = 'X' then
    (numericEscape? 16 (rest.takeWhile Text.isHexDigit)).map fun d =>
      (d, rest.dropWhile Text.isHexDigit)
  else if c = 'u' then
    let digits := (rest.take 4).takeWhile Text.isHexDigit
    if digits.length = 4 then (numericEscape? 16 digits).map fun d => (d, rest.drop 4) else none
  else if Text.isOctalDigit c then
    (numericEscape? 8 (c :: rest.takeWhile Text.isOctalDigit)).map fun d =>
      (d, rest.dropWhile Text.isOctalDigit)
  else (simpleEscape? c).map fun d => (d, rest)

/-- Decodes the escapes of a text; every step takes at least one char, so the length is fuel
enough. -/
def unescapeWith : Nat → List Char → Option (List Char)
  | _, [] => some []
  | 0, _ :: _ => none
  | fuel + 1, c :: rest =>
    if c = '\\' then
      match rest with
      | [] => none
      | e :: rest =>
        match escape? e rest with
        | some (d, rest) => (unescapeWith fuel rest).map (d :: ·)
        | none => none
    else (unescapeWith fuel rest).map (c :: ·)

def unescape? (text : List Char) : Option (List Char) := unescapeWith text.length text

/-- The text between the quotes. -/
def unquote? (text : List Char) : Option (List Char) :=
  match text with
  | _ :: c :: rest => some (c :: rest).dropLast
  | _ => none

/-- The number written as digits, a fraction and an exponent. -/
def floatValue (text : List Char) : Binary64 :=
  let (whole, rest) := text.span Char.isDigit
  let (fraction, rest) := match rest with
    | '.' :: rest => rest.span Char.isDigit
    | rest => ([], rest)
  let exponent : Int := match rest with
    | _ :: '-' :: digits => -(numeral 10 digits : Int)
    | _ :: '+' :: digits => numeral 10 digits
    | _ :: digits => numeral 10 digits
    | [] => 0
  .ofDecimal false (numeral 10 (whole ++ fraction)) (exponent - fraction.length)

/-! ## Actions -/

namespace Literals

def setLiteral (ctx : Context Value) (l : Literal) : Context Value := ctx.setValue (.literal l)

/-- An integer literal has 64 bits. -/
def setInt (ctx : Context Value) (text : String) (n : Nat) : Verdict × Context Value :=
  if n < wordCount64 then (.pass, setLiteral ctx (.int n))
  else (.fail (.literalOverflow text "ulong"), ctx)

def hex (ctx : Context Value) (m : Matched) : Verdict × Context Value :=
  setInt ctx m.text (numeral 16 (m.text.toList.drop 2))

def decimal (ctx : Context Value) (m : Matched) : Verdict × Context Value :=
  setInt ctx m.text (numeral 10 m.text.toList)

def floating (ctx : Context Value) (m : Matched) : Context Value :=
  setLiteral ctx (.float (floatValue m.text.toList))

def char (ctx : Context Value) (m : Matched) : Bool × Context Value :=
  match (unquote? m.text.toList).bind unescape? with
  | some [c] => (true, setLiteral ctx (.char c))
  | _ => (false, ctx)

def string (ctx : Context Value) (m : Matched) : Bool × Context Value :=
  match (unquote? m.text.toList).bind unescape? with
  | some cs => (true, setLiteral ctx (.string (String.ofList cs)))
  | none => (false, ctx)

/-! ## Rules -/

def grammarName : String := "cminor.parser.LiteralGrammar"

def qualified (rule : String) : String := qualify grammarName rule

def alternatives : List String :=
  ["BooleanLiteral", "FloatingLiteral", "IntegerLiteral", "CharLiteral", "StringLiteral",
    "NullLiteral"]

def literalRule (name : String) (definition : Pattern) : Rule Value :=
  Rule.new name definition |>.yielding "Literal"

def literal : Rule Value :=
  alternatives.foldl (·.yields ·) (literalRule "Literal" (choice (alternatives.map rule)))

def boolean : Rule Value :=
  literalRule "BooleanLiteral" (.alt (.act "True" (.keyword "true")) (.act "False" (.keyword "false")))
    |>.action "True" (fun ctx _ => setLiteral ctx (.bool true))
    |>.action "False" (fun ctx _ => setLiteral ctx (.bool false))

def exponent : Pattern := sequence [set "eE", .opt (set "+-"), rule "digit_sequence"]

/-- A number with a fraction, an exponent or both. -/
def floatingRule : Rule Value :=
  literalRule "FloatingLiteral"
      (.act "A0" (.token (.alt
        (sequence [rule "digit_sequence", Pattern.char '.', rule "digit_sequence", .opt exponent])
        (.seq (rule "digit_sequence") exponent))))
    |>.action "A0" floating

def integer : Rule Value :=
  literalRule "IntegerLiteral" (.alt (.act "Hex" (rule "hex")) (.act "Dec" (rule "uint")))
    |>.checked "Hex" hex
    |>.checked "Dec" decimal

def charRule : Rule Value :=
  literalRule "CharLiteral" (.act "A0" (rule "char")) |>.predicate "A0" char

def stringRule : Rule Value :=
  literalRule "StringLiteral" (.act "A0" (rule "string")) |>.predicate "A0" string

def null : Rule Value :=
  literalRule "NullLiteral" (.act "A0" (.keyword "null"))
    |>.action "A0" (fun ctx _ => setLiteral ctx .null)

def grammar : GrammarDecl Value where
  name := grammarName
  references := [Lexical.grammarName]
  links := ["digit_sequence", "uint", "hex", "char", "string"].map fun name =>
    (name, Lexical.qualified name)
  rules := [literal, boolean, floatingRule, integer, charRule, stringRule, null]
  start := some "Literal"

def plan : Plan Value := .provide Lexical.grammar (.done grammar)

end Literals

end PegFront.Cminor
