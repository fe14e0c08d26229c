import PegFront.Peg.Match
import PegFront.Peg.Rule
import PegFront.Peg.Scanner
import PegFront.Peg.Stack

/-!
# The engine

Runs patterns over a scanner. A pattern that misses leaves the scanner where it was. An invocation of
a rule takes its arguments off the stack and, on a hit, pushes the value the rule declares. Patterns
run by recursion on their structure; fuel is spent on the rounds of a repetition and on the nesting of
rules only.
-/

namespace PegFront

/-- Why a run ends without a match or a miss. -/
inductive Stop where
  | error (error : ParseError)
  /-- The fuel is used up. -/
  | exhausted
deriving Repr

structure State (V : Type) where
  scanner : Scanner
  stack : Stack V
  /-- Context of the rule being matched. -/
  context : Context V

abbrev Engine (V : Type) := ExceptT Stop (StateM (State V))

namespace Engine

variable {V α : Type}

def here : Engine V Cursor := return (← get).scanner.cursor

def onScanner (f : Scanner → Scanner) : Engine V Unit :=
  modify fun s => { s with scanner := f s.scanner }

def moveTo (c : Cursor) : Engine V Unit := onScanner (·.moveTo c)

def setStack (stack : Stack V) : Engine V Unit := modify fun s => { s with stack }

def setContext (context : Context V) : Engine V Unit := modify fun s => { s with context }

/-- A miss of the terminal described by `what`. -/
@[inline]
def missed (what : String) : Engine V Match := do
  onScanner (·.note what)
  return .miss

/-- The hit from a place up to the current one. -/
def hitFrom (start : Cursor) : Engine V Match := return .hit ((← here).offset - start.offset)

def raise (cause : Cause) (span : Span) : Engine V α := do
  throw (.error ((← get).scanner.report cause span))

def raiseInternal (cause : Cause) (span : Span) : Engine V α := do
  throw (.error ((← get).scanner.internalError cause span))

/-- Runs to the end, whether it stops or not. -/
def attempt (body : Engine V α) : Engine V (Except Stop α) := ExceptT.lift body.run

/-- Runs with the scanner changed, and changes it again at the end, also if the run stops. -/
def bracket (before after : Scanner → Scanner) (body : Engine V α) : Engine V α := do
  onScanner before
  let outcome ← attempt body
  onScanner after
  liftExcept outcome
where
  liftExcept : Except Stop α → Engine V α
    | .ok a => pure a
    | .error e => throw e

/-! ## Terminals -/

def matchOne (kind : CharKind) : Engine V Match := do
  match (← here).next? with
  | some (c, after) =>
    if kind.accepts c then
      moveTo after
      return .hit c.utf8Size
    else missed (Pattern.one kind).describe
  | none => missed (Pattern.one kind).describe

def matchText (literal : String) : Engine V Match := do
  match (← here).after? literal.toList with
  | some after =>
    moveTo after
    return .hit literal.utf8ByteSize
  | none => missed (Pattern.text literal).describe

def matchKeyword (word : String) : Engine V Match := do
  match (← here).after? word.toList with
  | some after =>
    if after.next?.any fun (c, _) => Text.isWordChar c then missed (Pattern.keyword word).describe
    else
      moveTo after
      return .hit word.utf8ByteSize
  | none => missed (Pattern.keyword word).describe

/-! ## Skipping and repetition -/

/-- After a run of the skip rule that began at `before`: nothing it left on the stack is kept, and a miss
goes back to where it began. -/
def endSkip (before : State V) (outcome : Except Stop Match) : Engine V Unit := do
  modify fun t => { t with stack := t.stack.truncate before.stack.size }
  match outcome with
  | .ok .miss => moveTo before.scanner.cursor
  | .ok (.hit _) => return
  | .error e => throw e

/-- Runs the skip rule if something may be skipped here. -/
def skip (invoke : RuleId → Engine V Match) : Engine V Unit := do
  let s ← get
  match s.scanner.skipRule with
  | none => return
  | some id =>
    if s.scanner.canSkip then
      let outcome ← attempt (bracket (.setSkipping true) (.setSkipping false) (invoke id))
      endSkip s outcome

/-- Runs `body` while it hits and input is left, skipping between two rounds. -/
def repeatBody (skip : Engine V Unit) (body : Engine V Match) : Nat → (first : Bool) → Engine V Unit
  | 0, _ => throw .exhausted
  | fuel + 1, first => do
    let s ← get
    if s.scanner.atEnd then return
    if !first then skip
    match ← body with
    | .miss => moveTo s.scanner.cursor
    | .hit _ => repeatBody skip body fuel false

/-- Runs a separator and an item while both hit. -/
def repeatItems (skip : Engine V Unit) (separator item : Engine V Match) : Nat → Engine V Unit
  | 0 => throw .exhausted
  | fuel + 1 => do
    let save ← here
    skip
    match ← separator with
    | .miss => moveTo save
    | .hit _ =>
      skip
      match ← item with
      | .miss => moveTo save
      | .hit _ => repeatItems skip separator item fuel

/-! ## Actions and calls -/

/-- What an action sees of the input since `start`. -/
def matchedSince (start : Cursor) (s : Scanner) : Matched :=
  ⟨String.ofList (start.textTo s.offset), s.spanFrom start.offset, s.input.file⟩

/-- Runs an action of the rule on what was matched since `start`. -/
def runAction (rule : Rule V) (action : String) (start : Cursor) (length : Nat) : Engine V Match := do
  let s ← get
  let matched := matchedSince start s.scanner
  match rule.action? action with
  | none => raiseInternal (.unboundAction rule.qualifiedName action) matched.span
  | some f =>
    let (verdict, context) := f s.context matched
    setContext context
    match verdict with
    | .pass => return .hit length
    | .reject =>
      moveTo start
      return .miss
    | .fail cause => raise cause matched.span

/-- Pushes the arguments of a call and gives the rule it calls. -/
def passArguments (rule : Rule V) (call : Call) : Engine V RuleId := do
  let s ← get
  match call.target with
  | none => raiseInternal (.unresolvedRule rule.qualifiedName call.label call.rule) s.scanner.span
  | some target =>
    let args := rule.argumentsOf call s.context
    if args.length ≠ call.arity then
      raiseInternal (.argumentCountMismatch rule.qualifiedName call.rule call.arity args.length)
        s.scanner.span
    else
      setStack (s.stack.pushAll args)
      return target

/-- Takes the value a called rule left on the stack into the context of the caller. -/
def takeUpValue (rule : Rule V) (call : Call) (callee : Rule V) : Engine V Unit := do
  if callee.hasValue then
    let s ← get
    match s.stack.pop? with
    | none => raiseInternal (.missingValue callee.qualifiedName) s.scanner.span
    | some (v, stack) =>
      setStack stack
      setContext <| match rule.postCall? call.label with
        | some f => f s.context v
        | none => s.context.set call.label v

/-- What is left to do after a call: nothing on a miss. -/
def endCall (rules : Array (Rule V)) (rule : Rule V) (call : Call) (target : RuleId) (m : Match) :
    Engine V Match :=
  match m, rules[target]? with
  | .hit n, some callee => do
    takeUpValue rule call callee
    return .hit n
  | m, _ => return m

/-- Pushes the arguments, invokes the rule and takes up its value. -/
def performCall (rules : Array (Rule V)) (invoke : RuleId → Engine V Match) (rule : Rule V)
    (call : Call) : Engine V Match := do
  let target ← passArguments rule call
  let m ← invoke target
  endCall rules rule call target m

end Engine

open Engine in
/-- Runs a pattern of a rule. `invoke` runs the rules it calls. -/
def Pattern.run {V : Type} (rules : Array (Rule V)) (fuel : Nat) (invoke : RuleId → Engine V Match)
    (rule : Rule V) : Pattern → Engine V Match
  | .empty => return .empty
  | .one kind => matchOne kind
  | .text literal => matchText literal
  | .keyword word => matchKeyword word
  | .keywords selector words => do
    let start ← here
    let m ← selector.run rules fuel invoke rule
    let stop ← here
    if m.isHit && words.contains (String.ofList (start.textTo stop.offset)) then return m
    moveTo start
    missed (Pattern.keywords selector words).describe
  | .seq first second => do
    let start ← here
    match ← first.run rules fuel invoke rule with
    | .miss => return .miss
    | .hit _ =>
      let middle ← here
      skip invoke
      match ← second.run rules fuel invoke rule with
      | .miss =>
        moveTo start
        return .miss
      -- What was skipped before an empty match is given back.
      | .hit 0 =>
        moveTo middle
        hitFrom start
      | .hit _ => hitFrom start
  | .alt first second => do
    let start ← here
    match ← first.run rules fuel invoke rule with
    | .hit n => return .hit n
    | .miss =>
      moveTo start
      second.run rules fuel invoke rule
  | .diff subject excluded => do
    let start ← here
    match ← subject.run rules fuel invoke rule with
    | .miss =>
      moveTo start
      return .miss
    | .hit n =>
      let after ← here
      moveTo start
      let m ← excluded.run rules fuel invoke rule
      if m.length?.any (n ≤ ·) then
        moveTo start
        return .miss
      else
        moveTo after
        return .hit n
  | .list item separator => do
    let start ← here
    match ← item.run rules fuel invoke rule with
    | .miss => return .miss
    | .hit _ =>
      repeatItems (skip invoke) (separator.run rules fuel invoke rule)
        (item.run rules fuel invoke rule) fuel
      hitFrom start
  | .opt subject => do
    let start ← here
    match ← subject.run rules fuel invoke rule with
    | .hit n => return .hit n
    | .miss =>
      moveTo start
      return .empty
  | .many subject => do
    let start ← here
    repeatBody (skip invoke) (subject.run rules fuel invoke rule) fuel true
    hitFrom start
  | .many1 subject => do
    let start ← here
    match ← subject.run rules fuel invoke rule with
    | .miss => return .miss
    | .hit _ =>
      repeatBody (skip invoke) (subject.run rules fuel invoke rule) fuel false
      hitFrom start
  | .expect subject => do
    match ← subject.run rules fuel invoke rule with
    | .hit n => return .hit n
    | .miss =>
      let s ← get
      throw (.error (s.scanner.expectationFailure subject.describe s.scanner.offset))
  | .token subject => bracket (·.beginToken) (·.endToken) (subject.run rules fuel invoke rule)
  | .lookahead subject => do
    let start ← here
    let m ← subject.run rules fuel invoke rule
    moveTo start
    return if m.isHit then .empty else .miss
  | .notAhead subject => do
    let start ← here
    let m ← subject.run rules fuel invoke rule
    moveTo start
    return if m.isHit then .miss else .empty
  | .act action subject => do
    let start ← here
    match ← subject.run rules fuel invoke rule with
    | .miss => return .miss
    | .hit n => runAction rule action start n
  | .call c => performCall rules invoke rule c

namespace Engine

variable {V : Type}

/-- The value of a matched rule, if it declares one, goes from its context onto the stack. -/
def pushValue (rule : Rule V) (start : Cursor) : Engine V Unit := do
  if rule.hasValue then
    let s ← get
    match s.context.value with
    | some v => setStack (s.stack.push v)
    | none => raiseInternal (.missingValue rule.qualifiedName) (s.scanner.spanFrom start.offset)

/-- Takes the arguments of a rule off the stack and starts a context with them. -/
def enter (rule : Rule V) : Engine V Unit := do
  let s ← get
  match s.stack.popN? rule.arity with
  | none =>
    raiseInternal (.stackUnderflow rule.qualifiedName rule.arity s.stack.size) s.scanner.span
  | some (args, stack) =>
    setStack stack
    setContext (.enter rule.attributes args s.scanner.offset)
    onScanner (·.enterRule rule.qualifiedName)

/-- Ends a rule that was entered at `before` and goes back to the context of that place. -/
def leave (rule : Rule V) (before : State V) (outcome : Except Stop Match) : Engine V Match := do
  let start := before.scanner.cursor
  let matched := match outcome with
    | .ok m => m.isHit
    | .error _ => false
  onScanner (·.leaveRule rule.qualifiedName start matched)
  match outcome with
  | .error e => throw e
  | .ok .miss =>
    setContext before.context
    return .miss
  | .ok (.hit n) =>
    pushValue rule start
    setContext before.context
    return .hit n

/-- Matches a rule in a context of its own. -/
def matchRule (rule : Rule V) (body : Engine V Match) : Engine V Match := do
  let s ← get
  enter rule
  let outcome ← attempt body
  leave rule s outcome

/-- Invokes a rule of the table. A rule outside the table cannot be invoked at any fuel. -/
def invoke (rules : Array (Rule V)) : Nat → RuleId → Engine V Match
  | 0, _ => throw .exhausted
  | fuel + 1, id =>
    match rules[id]? with
    | none => throw .exhausted
    | some rule => matchRule rule (rule.definition.run rules fuel (invoke rules fuel) rule)

end Engine

end PegFront
