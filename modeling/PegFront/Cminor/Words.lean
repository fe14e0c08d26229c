import PegFront.Cminor.Value
import PegFront.Peg.Lexical

/-!
# Words and types

Three grammars: keywords, identifiers, which are the words that are no keywords, and type expressions,
which are basic types or dotted names followed by any number of bracket pairs.
-/

namespace PegFront.Cminor

open Pattern

/-! ## Keywords -/

def keywords : List String := [
  "abstract", "as", "base", "bool", "break", "byte", "case", "cast", "catch", "char", "class",
  "const", "continue", "default", "delegate", "delete", "do", "double", "else", "enum",
  "explicit", "extern", "false", "float", "for", "goto", "if", "implicit", "int", "interface",
  "internal", "is", "long", "namespace", "new", "null", "operator", "out", "override",
  "private", "protected", "public", "ref", "return", "sbyte", "short", "static", "string",
  "switch", "this", "throw", "true", "try", "uint", "ulong", "ushort", "using", "virtual",
  "void", "while"]

def isKeyword (word : String) : Bool := keywords.contains word

namespace Keywords

def grammarName : String := "cminor.parser.KeywordGrammar"

def grammar : GrammarDecl Value where
  name := grammarName
  references := [Lexical.grammarName]
  links := [("identifier", Lexical.qualified "identifier")]
  rules := [.new "Keyword" (ofWords (rule "identifier") keywords)]
  start := some "Keyword"

def plan : Plan Value := .provide Lexical.grammar (.done grammar)

end Keywords

/-! ## Identifiers -/

namespace Identifiers

def grammarName : String := "cminor.parser.IdentifierGrammar"

def qualified (rule : String) : String := qualify grammarName rule

/-- The matched text as an identifier. -/
def setIdentifier (ctx : Context Value) (m : Matched) : Context Value :=
  ctx.setValue (.identifier ⟨m.text, m.span⟩)

def identifier : Rule Value :=
  Rule.new "Identifier" (.act "A0" (.diff (rule "identifier") (rule "Keyword")))
    |>.yielding "Identifier"
    |>.action "A0" setIdentifier

def qualifiedId : Rule Value :=
  Rule.new "QualifiedId" (.act "A0" (.token (.list (rule "Identifier") (char '.'))))
    |>.yielding "Identifier"
    |>.action "A0" setIdentifier

def grammar : GrammarDecl Value where
  name := grammarName
  references := [Lexical.grammarName, Keywords.grammarName]
  links := [
    ("identifier", Lexical.qualified "identifier"),
    ("Keyword", qualify Keywords.grammarName "Keyword")]
  rules := [identifier, qualifiedId]
  start := some "Identifier"

def plan : Plan Value :=
  .provide Lexical.grammar (.requiring [(Keywords.grammarName, Keywords.plan)] (.done grammar))

end Identifiers

/-! ## Types -/

namespace Types

def grammarName : String := "cminor.parser.TypeExprGrammar"

def qualified (rule : String) : String := qualify grammarName rule

def basic (ctx : Context Value) (m : Matched) : Bool × Context Value :=
  match BasicType.ofKeyword? m.text with
  | some t => (true, ctx.setValue (.type (.basic t m.span)))
  | none => (false, ctx)

def named (ctx : Context Value) (m : Matched) : Bool × Context Value :=
  match takeAs Value.identifier? "QualifiedId" ctx with
  | (some name, ctx) => (true, ctx.setValue (.type (.named name m.span)))
  | (none, ctx) => (false, ctx)

/-- A pair of brackets makes an array of what came before. -/
def array (ctx : Context Value) (m : Matched) : Bool × Context Value :=
  match takeValueAs Value.type? ctx with
  | (some element, ctx) =>
    (true, ctx.setValue (.type (.array element ⟨m.span.file, ctx.start, m.span.stop⟩)))
  | (none, ctx) => (false, ctx)

def typeExpr : Rule Value :=
  Rule.new "TypeExpr"
      (.seq
        (.alt
          (.act "Basic" (ofWords (rule "identifier") (BasicType.all.map (·.keyword))))
          (.act "Named" (rule "QualifiedId")))
        (.many (.act "Array" (.seq (char '[') (char ']')))))
    |>.yielding "TypeExpr"
    |>.predicate "Basic" basic
    |>.predicate "Named" named
    |>.predicate "Array" array

def grammar : GrammarDecl Value where
  name := grammarName
  references := [Lexical.grammarName, Identifiers.grammarName]
  links := [
    ("identifier", Lexical.qualified "identifier"),
    ("QualifiedId", Identifiers.qualified "QualifiedId"),
    ("SpacesAndComments", Lexical.qualified "spaces_and_comments")]
  rules := [typeExpr]
  start := some "TypeExpr"
  skip := some "SpacesAndComments"

def plan : Plan Value :=
  .provide Lexical.grammar (.requiring [(Identifiers.grammarName, Identifiers.plan)] (.done grammar))

end Types

end PegFront.Cminor
