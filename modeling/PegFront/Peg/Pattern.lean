import PegFront.Peg.CharSet
import PegFront.Text.Sorted

/-!
# Patterns

A pattern is a parsing expression: terminals, the operators of parsing expression grammars, and three
nodes that tie a pattern to its rule: `act` runs an action of the rule on what its subject matched,
`call` invokes another rule, and `expect` turns a miss into an error.
-/

namespace PegFront

/-- Index of a rule in a linked domain. -/
abbrev RuleId := Nat

/-- What a terminal for one char accepts. -/
inductive CharKind where
  | any
  | space
  | letter
  | digit
  | hexDigit
  | punctuation
  | wordStart
  | wordChar
  | exactly (c : Char)
  | oneOf (set : CharSet)
deriving DecidableEq, Repr

def CharKind.accepts : CharKind → Char → Bool
  | .any, _ => true
  | .space, c => Text.isBlank c
  | .letter, c => Text.isAlphabetic c
  | .digit, c => c.isDigit
  | .hexDigit, c => Text.isHexDigit c
  | .punctuation, c => Text.isAsciiPunctuation c
  | .wordStart, c => Text.isWordStart c
  | .wordChar, c => Text.isWordChar c
  | .exactly d, c => c == d
  | .oneOf set, c => set.accepts c

/-- A call of a rule. -/
structure Call where
  /-- Name under which the caller keeps the value of the called rule. -/
  label : String
  /-- Rule as written: an own rule, an alias, or a qualified name. -/
  rule : String
  /-- Number of arguments passed. -/
  arity : Nat
  /-- The called rule, once linked. -/
  target : Option RuleId := none
deriving DecidableEq, Repr

inductive Pattern where
  /-- Matches nothing, always hits. -/
  | empty
  | one (kind : CharKind)
  | text (literal : String)
  /-- A literal that no word char follows. -/
  | keyword (word : String)
  /-- A match of the selector whose text is one of the words, which are sorted. -/
  | keywords (selector : Pattern) (words : List String)
  | seq (first second : Pattern)
  /-- The second only where the first misses. -/
  | alt (first second : Pattern)
  /-- The subject, unless the excluded pattern matches at least as much. -/
  | diff (subject excluded : Pattern)
  /-- One or more items with separators between them. -/
  | list (item separator : Pattern)
  | opt (subject : Pattern)
  | many (subject : Pattern)
  | many1 (subject : Pattern)
  /-- A miss of the subject is an error. -/
  | expect (subject : Pattern)
  /-- Nothing is skipped inside. -/
  | token (subject : Pattern)
  | lookahead (subject : Pattern)
  | notAhead (subject : Pattern)
  | act (action : String) (subject : Pattern)
  | call (call : Call)
deriving DecidableEq, Repr, Inhabited

namespace Pattern

def char (c : Char) : Pattern := .one (.exactly c)

def set (text : String) : Pattern := .one (.oneOf (.ofText text))

def ofWords (selector : Pattern) (words : List String) : Pattern :=
  .keywords selector (Text.sorted words)

/-- A call without arguments whose value is kept under the name of the rule. -/
def rule (name : String) : Pattern := .call ⟨name, name, 0, none⟩

def callAs (label rule : String) (arity : Nat) : Pattern := .call ⟨label, rule, arity, none⟩

/-- Nests a binary operator to the left over a list; nothing is `empty`. -/
def joinLeft (op : Pattern → Pattern → Pattern) : List Pattern → Pattern
  | [] => .empty
  | p :: ps => ps.foldl op p

def sequence (parts : List Pattern) : Pattern := joinLeft .seq parts

def choice (options : List Pattern) : Pattern := joinLeft .alt options

def children : Pattern → List Pattern
  | .seq a b | .alt a b | .diff a b | .list a b => [a, b]
  | .opt p | .many p | .many1 p | .expect p | .token p | .lookahead p | .notAhead p | .act _ p
  | .keywords p _ => [p]
  | _ => []

/-- A pattern and everything below it, parents first. -/
def nodes : Pattern → List Pattern
  | p@(.seq a b) | p@(.alt a b) | p@(.diff a b) | p@(.list a b) => p :: (nodes a ++ nodes b)
  | p@(.opt a) | p@(.many a) | p@(.many1 a) | p@(.expect a) | p@(.token a) | p@(.lookahead a)
  | p@(.notAhead a) | p@(.act _ a) | p@(.keywords a _) => p :: nodes a
  | p => [p]

/-- The calls of a pattern, in the order of `nodes`. -/
def calls (p : Pattern) : List Call :=
  p.nodes.filterMap fun
    | .call c => some c
    | _ => none

/-- Replaces every call, from left to right, by what `f` makes of it. -/
def mapCallsM {m : Type → Type} [Monad m] (f : Call → m Call) : Pattern → m Pattern
  | .seq a b => return .seq (← mapCallsM f a) (← mapCallsM f b)
  | .alt a b => return .alt (← mapCallsM f a) (← mapCallsM f b)
  | .diff a b => return .diff (← mapCallsM f a) (← mapCallsM f b)
  | .list a b => return .list (← mapCallsM f a) (← mapCallsM f b)
  | .opt p => return .opt (← mapCallsM f p)
  | .many p => return .many (← mapCallsM f p)
  | .many1 p => return .many1 (← mapCallsM f p)
  | .expect p => return .expect (← mapCallsM f p)
  | .token p => return .token (← mapCallsM f p)
  | .lookahead p => return .lookahead (← mapCallsM f p)
  | .notAhead p => return .notAhead (← mapCallsM f p)
  | .act action p => return .act action (← mapCallsM f p)
  | .keywords p words => return .keywords (← mapCallsM f p) words
  | .call c => return .call (← f c)
  | p => return p

end Pattern

end PegFront
