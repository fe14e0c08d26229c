import PegFront.Source.Lines

/-!
# Parse errors

A `Cause` says what went wrong; its category tells whether the input, the grammar or the machinery is
at fault. A `ParseError` adds the phase that raised it, the place in the input it refers to, if any,
and a hint.
-/

namespace PegFront

inductive Cause where
  | expectationFailure (expected found : String)
  | literalOverflow (literal typeName : String)
  | noStartRule (grammar : String)
  | unknownGrammar (name referencedBy : String)
  | duplicateGrammar (name : String)
  | duplicateRule (grammar rule : String)
  | unknownRule (grammar rule role : String)
  | unresolvedRule (caller label rule : String)
  | argumentCountMismatch (caller rule : String) (expected actual : Nat)
  | unboundAction (rule action : String)
  | unknownAttribute (rule name : String)
  | invalidSkipRule (grammar rule : String)
  | invalidCharSet (text reason : String)
  | stackUnderflow (rule : String) (needed available : Nat)
  | missingValue (rule : String)
  | unexpectedValue (expected found : String)
deriving DecidableEq, Repr

inductive Category where
  /-- The input does not match the grammar. -/
  | expectation
  /-- The input matches, its content is out of range. -/
  | input
  /-- The grammar is malformed. -/
  | grammar
  /-- A grammar or the engine breaks its own rules. -/
  | internal
deriving DecidableEq, Repr

namespace Cause

def message : Cause → String
  | .expectationFailure expected found => expected ++ " expected, found " ++ found
  | .literalOverflow literal typeName => "literal '" ++ literal ++ "' does not fit in " ++ typeName
  | .noStartRule grammar => "grammar '" ++ grammar ++ "' has no start rule"
  | .unknownGrammar name by_ =>
    "grammar '" ++ name ++ "' referenced by '" ++ by_ ++ "' is not registered"
  | .duplicateGrammar name => "grammar '" ++ name ++ "' is registered twice"
  | .duplicateRule grammar rule =>
    "rule '" ++ rule ++ "' is defined twice in grammar '" ++ grammar ++ "'"
  | .unknownRule grammar rule role =>
    role ++ " rule '" ++ rule ++ "' of grammar '" ++ grammar ++ "' does not exist"
  | .unresolvedRule caller label rule =>
    "nonterminal '" ++ label ++ "' in rule '" ++ caller ++ "' refers to unknown rule '" ++ rule ++ "'"
  | .argumentCountMismatch caller rule expected actual =>
    "rule '" ++ caller ++ "' passes " ++ toString actual ++ " argument(s) to '" ++ rule ++
      "', which takes " ++ toString expected
  | .unboundAction rule action => "action '" ++ action ++ "' of rule '" ++ rule ++ "' is not bound"
  | .unknownAttribute rule name =>
    "rule '" ++ rule ++ "' forwards '" ++ name ++
      "', which is not one of its inherited attributes"
  | .invalidSkipRule grammar rule =>
    "skip rule '" ++ rule ++ "' of grammar '" ++ grammar ++
      "' must take no inherited values and synthesize none"
  | .invalidCharSet text reason => "invalid character class '" ++ text ++ "': " ++ reason
  | .stackUnderflow rule needed available =>
    "rule '" ++ rule ++ "' needs " ++ toString needed ++
      " inherited value(s) but the stack holds " ++ toString available
  | .missingValue rule => "rule '" ++ rule ++ "' matched without producing its value"
  | .unexpectedValue expected found => "expected a " ++ expected ++ " value, found " ++ found

def category : Cause → Category
  | .expectationFailure .. => .expectation
  | .literalOverflow .. => .input
  | .stackUnderflow .. | .missingValue .. | .unexpectedValue .. => .internal
  | _ => .grammar

/-- Last segment of the error code. -/
def code : Cause → String
  | .expectationFailure .. => "expectation_failure"
  | .literalOverflow .. => "literal_overflow"
  | .noStartRule .. => "no_start_rule"
  | .unknownGrammar .. => "unknown_grammar"
  | .duplicateGrammar .. => "duplicate_grammar"
  | .duplicateRule .. => "duplicate_rule"
  | .unknownRule .. => "unknown_rule"
  | .unresolvedRule .. => "unresolved_rule"
  | .argumentCountMismatch .. => "argument_count_mismatch"
  | .unboundAction .. => "unbound_action"
  | .unknownAttribute .. => "unknown_attribute"
  | .invalidSkipRule .. => "invalid_skip_rule"
  | .invalidCharSet .. => "invalid_char_set"
  | .stackUnderflow .. => "stack_underflow"
  | .missingValue .. => "missing_value"
  | .unexpectedValue .. => "unexpected_value"

/-- Text put next to the place an error refers to. -/
def label : Cause → String
  | .expectationFailure expected _ => expected ++ " expected here"
  | .literalOverflow _ typeName => "out of range for " ++ typeName
  | .stackUnderflow .. => "stack underflow"
  | .missingValue .. => "rule matched here"
  | _ => "here"

/-- The construct an expectation failure missed. -/
def expected? : Cause → Option String
  | .expectationFailure expected _ => some expected
  | _ => none

end Cause

/-- The place in an input an error refers to. -/
structure Origin where
  file : String
  span : Span
  position : Position
deriving DecidableEq, Repr

structure ParseError where
  cause : Cause
  phase : String
  origin : Option Origin := none
  help : Option String := none
deriving DecidableEq, Repr

namespace ParseError

/-- An error about a span of a source. -/
def located (cause : Cause) (phase file : String) (source : List Char) (span : Span) : ParseError where
  cause := cause
  phase := phase
  origin := some ⟨file, span, Source.position source span.start⟩

def withHelp (e : ParseError) (help : String) : ParseError := { e with help := some help }

/-- The hint of errors that are never the input's fault. -/
def internalHelp : String :=
  "This is an internal parser error. The grammar or the runtime is at fault, not the input."

def code (e : ParseError) : String := "cminor::" ++ e.phase ++ "::" ++ e.cause.code

def message (e : ParseError) : String :=
  match e.origin with
  | some o =>
    "parsing file '" ++ o.file ++ "' failed at line " ++ toString o.position.line ++ ", column " ++
      toString o.position.column ++ ": " ++ e.cause.message
  | none => e.cause.message

/-- The label of an error and the span it belongs to. -/
def label? (e : ParseError) : Option (String × Span) :=
  e.origin.map fun o => (e.cause.label, o.span)

end ParseError

end PegFront
