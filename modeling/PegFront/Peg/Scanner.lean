import PegFront.Error
import PegFront.Text.Quoted
import PegFront.Text.Sorted
import PegFront.Peg.Pattern
import PegFront.Peg.Trace

/-!
# Scanners

A scanner is a place in a bounded part of one source, together with what a run keeps track of: whether
input may be skipped, how deep the rules are nested, the farthest place at which a terminal missed and
what was expected there, and the trace. A `Cursor` is an offset with the input that is left at it, so
that a place once reached can be taken up again.
-/

namespace PegFront

structure Cursor where
  offset : Nat
  /-- The input from here to the end of the scanned part. -/
  rest : List Char
deriving DecidableEq, Repr, Inhabited

namespace Cursor

/-- The next char and the place after it. -/
def next? (c : Cursor) : Option (Char × Cursor) :=
  match c.rest with
  | [] => none
  | ch :: rest => some (ch, ⟨c.offset + ch.utf8Size, rest⟩)

/-- The place after a literal the input goes on with. -/
def after? (c : Cursor) (literal : List Char) : Option Cursor :=
  match literal, c.rest with
  | [], _ => some c
  | ch :: literal, d :: rest =>
    if ch = d then after? ⟨c.offset + d.utf8Size, rest⟩ literal else none
  | _ :: _, [] => none

/-- The input from here up to a later offset. -/
def textTo (c : Cursor) (stop : Nat) : List Char :=
  (Text.takeBytes? (stop - c.offset) c.rest).getD []

end Cursor

/-- The part of a source that is scanned. -/
structure Input where
  text : List Char
  file : String
  fileIndex : Nat
  start : Nat
  stop : Nat
deriving DecidableEq, Repr

namespace Input

/-- The whole of a text. -/
def whole (text : List Char) (fileIndex : Nat) (file : String) : Input :=
  ⟨text, file, fileIndex, 0, Text.byteLength text⟩

/-- The part of a text between two offsets, cut down to the text. -/
def between (text : List Char) (start stop fileIndex : Nat) (file : String) : Input :=
  let stop := min stop (Text.byteLength text)
  ⟨text, file, fileIndex, min start stop, stop⟩

/-- The place at an offset. -/
def cursorAt (i : Input) (offset : Nat) : Cursor :=
  ⟨offset, (Text.slice? i.text offset i.stop).getD []⟩

end Input

structure Scanner where
  input : Input
  cursor : Cursor
  skipRule : Option RuleId := none
  /-- Number of tokens being read; nothing is skipped inside a token. -/
  tokenDepth : Nat := 0
  /-- Whether the skip rule is running. -/
  skipping : Bool := false
  ruleDepth : Nat := 0
  /-- Farthest offset at which a terminal missed. -/
  farthest : Nat
  /-- Descriptions of the terminals that missed there, sorted. -/
  expected : List String := []
  trace : Option Trace := none

namespace Scanner

def new (input : Input) : Scanner where
  input := input
  cursor := input.cursorAt input.start
  farthest := input.start

def offset (s : Scanner) : Nat := s.cursor.offset

def atEnd (s : Scanner) : Bool := s.input.stop ≤ s.offset

def moveTo (s : Scanner) (c : Cursor) : Scanner := { s with cursor := c }

/-- Moves to an offset on a char boundary. -/
def seek (s : Scanner) (offset : Nat) : Scanner := s.moveTo (s.input.cursorAt offset)

/-- The empty span at the current place. -/
def span (s : Scanner) : Span := .point s.input.fileIndex s.offset

def spanFrom (s : Scanner) (start : Nat) : Span := ⟨s.input.fileIndex, start, s.offset⟩

/-! ## Skipping -/

def beginToken (s : Scanner) : Scanner := { s with tokenDepth := s.tokenDepth + 1 }

def endToken (s : Scanner) : Scanner := { s with tokenDepth := s.tokenDepth - 1 }

def inToken (s : Scanner) : Bool := 0 < s.tokenDepth

def setSkipping (skipping : Bool) (s : Scanner) : Scanner := { s with skipping }

/-- Whether the skip rule may run here. -/
def canSkip (s : Scanner) : Bool := s.skipRule.isSome && !s.skipping && s.tokenDepth == 0

/-! ## Failures -/

/-- Records that `what` was expected and missing at the current place. -/
@[inline]
def note (s : Scanner) (what : String) : Scanner :=
  if s.skipping || s.offset < s.farthest then s
  else if s.farthest < s.offset then { s with farthest := s.offset, expected := [what] }
  else { s with expected := Text.insertSorted what s.expected }

/-- The farthest place reached, by a failure or by the scanner itself. -/
def reach (s : Scanner) : Nat := max s.farthest s.offset

/-- What was expected at `reach`: nothing once the scanner has moved past the last failure. -/
def expectedThere (s : Scanner) : List String := if s.farthest < s.offset then [] else s.expected

/-- Most chars of a word that a message quotes. -/
def foundLength : Nat := 16

/-- What stands at an offset: a word, a single char, or the end. -/
def foundAt (s : Scanner) (offset : Nat) : String :=
  match (s.input.cursorAt offset).rest with
  | [] => "end of file"
  | c :: rest =>
    if Text.isBlank c then Text.quoteChar c
    else if Text.isWordChar c then
      "'" ++ String.ofList (((c :: rest).takeWhile Text.isWordChar).take foundLength) ++ "'"
    else String.ofList ['\'', c, '\'']

/-- The span of the char at an offset, empty at the end. -/
def charSpanAt (s : Scanner) (offset : Nat) : Span :=
  match (s.input.cursorAt (min offset s.input.stop)).rest with
  | [] => ⟨s.input.fileIndex, offset, offset⟩
  | c :: _ => ⟨s.input.fileIndex, offset, offset + c.utf8Size⟩

/-! ## Errors -/

def report (s : Scanner) (cause : Cause) (span : Span) : ParseError :=
  .located cause "parse" s.input.file s.input.text span

/-- An error that is never the input's fault. -/
def internalError (s : Scanner) (cause : Cause) (span : Span) : ParseError :=
  (s.report cause span).withHelp ParseError.internalHelp

/-- A construct was expected at an offset and something else stands there. -/
def expectationFailure (s : Scanner) (expected : String) (offset : Nat) : ParseError :=
  s.report (.expectationFailure expected (s.foundAt offset)) (s.charSpanAt offset)

/-! ## Tracing -/

@[inline]
def record (s : Scanner) (kind : TraceKind) (rule : String) (span : Span) (text : List Char) :
    Scanner :=
  if s.skipping then s
  else { s with trace := s.trace.map fun t => t.record kind rule s.ruleDepth span text }

/-- Entry into the rule with a qualified name. -/
def enterRule (s : Scanner) (rule : String) : Scanner :=
  let s := s.record .enter rule s.span s.cursor.rest
  { s with ruleDepth := s.ruleDepth + 1 }

/-- The end of a rule that was entered at `start`. -/
def leaveRule (s : Scanner) (rule : String) (start : Cursor) (matched : Bool) : Scanner :=
  let s := { s with ruleDepth := s.ruleDepth - 1 }
  if matched then s.record .success rule (s.spanFrom start.offset) (start.textTo s.offset)
  else s.record .failure rule (.point s.input.fileIndex start.offset) []

end Scanner

end PegFront
