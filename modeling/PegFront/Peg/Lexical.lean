import PegFront.Peg.Registry

/-!
# The lexical grammar

Blanks, comments, words, numbers and quoted literals, shared by all grammars. Its rules have no
values, so the grammar fits into a domain of any kind of value; whoever calls a rule takes the
matched text with an action.
-/

namespace PegFront.Lexical

open Pattern

variable {V : Type}

def grammarName : String := "cminor.parsing.stdlib"

/-- Qualified name of a rule of this grammar. -/
def qualified (rule : String) : String := qualify grammarName rule

def sign : Pattern := .opt (set "+-")

def newline : Pattern := choice [.text "\r\n", char '\n', char '\r']

/-- Two slashes and the rest of the line, its end included. -/
def lineComment : Pattern :=
  .token (sequence [.text "//", .many (set "^\\r\\n"), .opt (rule "newline")])

/-- A comment that must be closed. -/
def blockComment : Pattern :=
  .token (sequence [.text "/*", .many (.diff (.one .any) (.text "*/")), .expect (.text "*/")])

def identifier : Pattern := .token (.seq (.one .wordStart) (.many (.one .wordChar)))

def decimal : Pattern :=
  .token (sequence [
    sign,
    rule "digit_sequence",
    .opt (.seq (char '.') (rule "digit_sequence")),
    .opt (sequence [set "eE", sign, rule "digit_sequence"])])

/-- A backslash and what must follow it: hex digits, four hex digits, octal digits, or one char. -/
def escape : Pattern :=
  .token (.seq (char '\\') (.expect (choice [
    .seq (set "xX") (.many1 (.one .hexDigit)),
    sequence [char 'u', .one .hexDigit, .one .hexDigit, .one .hexDigit, .one .hexDigit],
    .many1 (set "0-7"),
    set "abfnrtv'\"\\\\?"])))

def charLiteral : Pattern :=
  .token (sequence [
    char '\'',
    .alt (set "^\\\\'\\r\\n") (rule "escape"),
    .expect (char '\'')])

def stringLiteral : Pattern :=
  .token (sequence [
    char '"',
    .many (.alt (set "^\\\\\"\\r\\n") (rule "escape")),
    .expect (char '"')])

def grammar : GrammarDecl V where
  name := grammarName
  rules := [
    .new "spaces" (.many1 (.one .space)),
    .new "newline" newline,
    .new "line_comment" lineComment,
    .new "block_comment" blockComment,
    .new "comment" (.alt (rule "line_comment") (rule "block_comment")),
    .new "spaces_and_comments" (.many1 (.alt (.one .space) (rule "comment"))),
    .new "identifier" identifier,
    .new "qualified_id" (.token (.list (rule "identifier") (char '.'))),
    .new "digit_sequence" (.token (.many1 (.one .digit))),
    .new "int" (.token (.seq sign (rule "digit_sequence"))),
    .new "uint" (rule "digit_sequence"),
    .new "hex" (.token (.seq (.alt (.text "0x") (.text "0X")) (.many1 (.one .hexDigit)))),
    .new "num" decimal,
    .new "escape" escape,
    .new "char" charLiteral,
    .new "string" stringLiteral,
    .new "bool" (.alt (.keyword "true") (.keyword "false"))]

end PegFront.Lexical
