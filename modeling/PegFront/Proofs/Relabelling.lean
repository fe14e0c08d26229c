import PegFront.Proofs.Nodes
import PegFront.Proofs.Sessions

/-!
# Runs with other numbers and other traces

The engine uses the number of a rule only to find the rule, and never looks at the trace. So a run over
a table in which the rules have other numbers, and with something else done to the trace, takes the same
steps (`Relabelling.Tracks`): it ends with the same result and the same state, up to the number of the
skip rule and the trace.
-/

namespace PegFront

variable {V α β : Type}

/-- Other numbers for the rules, and what becomes of a trace; recording goes on as before. -/
structure Relabelling where
  rule : RuleId → RuleId
  trace : Option Trace → Option Trace
  record : ∀ t kind rule depth span text, trace (t.map fun t : Trace => t.record kind rule depth span text) =
    (trace t).map fun t => t.record kind rule depth span text

/-- The call with another number at its target. -/
def Call.retarget (f : RuleId → RuleId) (c : Call) : Call := { c with target := c.target.map f }

def Rule.retarget (f : RuleId → RuleId) (rule : Rule V) : Rule V :=
  { rule with definition := rule.definition.mapCalls (Call.retarget f) }

namespace Relabelling

variable (ρ : Relabelling)

def scanner (s : Scanner) : Scanner := { s with skipRule := s.skipRule.map ρ.rule, trace := ρ.trace s.trace }

def state (s : State V) : State V := { s with scanner := ρ.scanner s.scanner }

/-- The second computation does under the other labels what the first one does. -/
def Tracks (m m' : Engine V α) : Prop := ∀ s, outcome m' (ρ.state s) = ((outcome m s).1, ρ.state (outcome m s).2)

/-- The second table has the rules of the first one under their other numbers. -/
def Tables (rules rules' : Array (Rule V)) : Prop :=
  ∀ id : RuleId, rules'[ρ.rule id]? = rules[id]?.map (Rule.retarget ρ.rule)

end Relabelling

variable {ρ : Relabelling} {m m' : Engine V α}

theorem Relabelling.scanner_note (s : Scanner) (what : String) : ρ.scanner (s.note what) = (ρ.scanner s).note what := by
  unfold Scanner.note
  rw [apply_ite ρ.scanner, apply_ite ρ.scanner]
  rfl

theorem Relabelling.scanner_record (s : Scanner) (kind : TraceKind) (rule : String) (span : Span) (text : List Char) :
    ρ.scanner (s.record kind rule span text) = (ρ.scanner s).record kind rule span text := by
  have htrace : ρ.scanner { s with trace := s.trace.map fun t => t.record kind rule s.ruleDepth span text } =
      { ρ.scanner s with trace := (ρ.trace s.trace).map fun t => t.record kind rule s.ruleDepth span text } := by
    rw [← ρ.record]
    rfl
  unfold Scanner.record
  rw [apply_ite ρ.scanner, htrace]
  rfl

theorem Relabelling.scanner_enterRule (s : Scanner) (rule : String) :
    ρ.scanner (s.enterRule rule) = (ρ.scanner s).enterRule rule :=
  congrArg (fun t : Scanner => { t with ruleDepth := t.ruleDepth + 1 })
    (scanner_record s .enter rule s.span s.cursor.rest)

theorem Relabelling.scanner_leaveRule (s : Scanner) (rule : String) (start : Cursor) (matched : Bool) :
    ρ.scanner (s.leaveRule rule start matched) = (ρ.scanner s).leaveRule rule start matched := by
  unfold Scanner.leaveRule
  dsimp only
  rw [apply_ite ρ.scanner, scanner_record, scanner_record]
  rfl

namespace Relabelling.Tracks

theorem pure (a : α) : ρ.Tracks (pure a : Engine V α) (pure a) := fun _ => rfl

theorem throw (e : Stop) : ρ.Tracks (throw e : Engine V α) (throw e) := fun _ => rfl

theorem bind {f f' : α → Engine V β} (h : ρ.Tracks m m') (hf : ∀ a, ρ.Tracks (f a) (f' a)) :
    ρ.Tracks (m >>= f) (m' >>= f') := by
  intro s
  rw [outcome_bind, outcome_bind, h s]
  rcases outcome m s with ⟨e | a, t⟩
  · rfl
  · exact hf a t

theorem get {f f' : State V → Engine V α} (h : ∀ s, ρ.Tracks (f s) (f' (ρ.state s))) :
    ρ.Tracks (get >>= f) (get >>= f') := fun s => h s s

theorem onScanner {f f' : Scanner → Scanner} (h : ∀ s, ρ.scanner (f s) = f' (ρ.scanner s)) :
    ρ.Tracks (Engine.onScanner f : Engine V Unit) (Engine.onScanner f') := by
  intro s
  exact congrArg (fun t => (Except.ok (), { s with scanner := t })) (h s.scanner).symm

theorem here : ρ.Tracks (Engine.here : Engine V Cursor) Engine.here := fun _ => rfl

theorem moveTo (c : Cursor) : ρ.Tracks (Engine.moveTo c : Engine V Unit) (Engine.moveTo c) := fun _ => rfl

theorem setStack (stack : Stack V) : ρ.Tracks (Engine.setStack stack) (Engine.setStack stack) := fun _ => rfl

theorem setContext (context : Context V) : ρ.Tracks (Engine.setContext context) (Engine.setContext context) :=
  fun _ => rfl

theorem missed (what : String) : ρ.Tracks (Engine.missed what : Engine V Match) (Engine.missed what) :=
  bind (onScanner fun s => scanner_note s what) fun _ => pure _

theorem hitFrom (start : Cursor) : ρ.Tracks (Engine.hitFrom start : Engine V Match) (Engine.hitFrom start) :=
  fun _ => rfl

theorem raise (cause : Cause) (span : Span) : ρ.Tracks (Engine.raise cause span : Engine V α) (Engine.raise cause span) :=
  fun _ => rfl

theorem raiseInternal (cause : Cause) (span : Span) :
    ρ.Tracks (Engine.raiseInternal cause span : Engine V α) (Engine.raiseInternal cause span) := fun _ => rfl

theorem attempt (h : ρ.Tracks m m') : ρ.Tracks (Engine.attempt m) (Engine.attempt m') := by
  intro s
  rw [outcome_attempt, outcome_attempt, h s]

theorem bracket {before after : Scanner → Scanner} (hb : ∀ s, ρ.scanner (before s) = before (ρ.scanner s))
    (ha : ∀ s, ρ.scanner (after s) = after (ρ.scanner s)) (h : ρ.Tracks m m') :
    ρ.Tracks (Engine.bracket before after m) (Engine.bracket before after m') := by
  refine bind (onScanner hb) fun _ => bind (attempt h) fun outcome => bind (onScanner ha) fun _ => ?_
  cases outcome with
  | ok a => exact pure a
  | error e => exact throw e

/-! ## Terminals -/

theorem matchOne (kind : CharKind) : ρ.Tracks (Engine.matchOne kind : Engine V Match) (Engine.matchOne kind) := by
  refine bind here fun c => ?_
  rcases c.next? with _ | ⟨ch, after⟩
  · exact missed _
  · dsimp only
    split
    · exact bind (moveTo after) fun _ => pure _
    · exact missed _

theorem matchText (literal : String) :
    ρ.Tracks (Engine.matchText literal : Engine V Match) (Engine.matchText literal) := by
  refine bind here fun c => ?_
  rcases c.after? literal.toList with _ | after
  · exact missed _
  · exact bind (moveTo after) fun _ => pure _

theorem matchKeyword (word : String) :
    ρ.Tracks (Engine.matchKeyword word : Engine V Match) (Engine.matchKeyword word) := by
  refine bind here fun c => ?_
  rcases c.after? word.toList with _ | after
  · exact missed _
  · dsimp only
    split
    · exact missed _
    · exact bind (moveTo after) fun _ => pure _

/-! ## Skipping and repetition -/

section
variable {invoke invoke' : RuleId → Engine V Match}

theorem endSkip (before : State V) (outcome : Except Stop Match) :
    ρ.Tracks (Engine.endSkip before outcome) (Engine.endSkip (ρ.state before) outcome) := by
  refine bind (fun _ => rfl) fun _ => ?_
  match outcome with
  | .ok .miss => exact moveTo _
  | .ok (.hit _) => exact pure ()
  | .error e => exact throw e

theorem skip (hk : ∀ id, ρ.Tracks (invoke id) (invoke' (ρ.rule id))) :
    ρ.Tracks (Engine.skip invoke) (Engine.skip invoke') := by
  refine get fun s => ?_
  have hcan : (ρ.state s).scanner.canSkip = s.scanner.canSkip := by
    simp [state, scanner, Scanner.canSkip]
  rw [hcan, show (ρ.state s).scanner.skipRule = s.scanner.skipRule.map ρ.rule from rfl]
  cases s.scanner.skipRule with
  | none => exact pure ()
  | some id =>
    dsimp only [Option.map_some]
    split
    · exact bind (attempt (bracket (fun _ => rfl) (fun _ => rfl) (hk id))) fun _ => endSkip s _
    · exact pure ()

theorem repeatBody {skip skip' : Engine V Unit} {body body' : Engine V Match} (hs : ρ.Tracks skip skip')
    (hb : ρ.Tracks body body') (fuel : Nat) (first : Bool) :
    ρ.Tracks (Engine.repeatBody skip body fuel first) (Engine.repeatBody skip' body' fuel first) := by
  induction fuel generalizing first with
  | zero => exact throw _
  | succ fuel ih =>
    refine get fun s => ?_
    rw [show (ρ.state s).scanner.atEnd = s.scanner.atEnd from rfl]
    split
    · exact pure ()
    cases first
    case' false => refine bind hs fun _ => ?_
    all_goals
      refine bind hb fun m => ?_
      cases m with
      | miss => exact moveTo _
      | hit n => exact ih false

theorem repeatItems {skip skip' : Engine V Unit} {separator separator' item item' : Engine V Match}
    (hs : ρ.Tracks skip skip') (hp : ρ.Tracks separator separator') (hi : ρ.Tracks item item') (fuel : Nat) :
    ρ.Tracks (Engine.repeatItems skip separator item fuel) (Engine.repeatItems skip' separator' item' fuel) := by
  induction fuel with
  | zero => exact throw _
  | succ fuel ih =>
    refine bind here fun save => bind hs fun _ => bind hp fun m => ?_
    cases m with
    | miss => exact moveTo save
    | hit n =>
      refine bind hs fun _ => bind hi fun m => ?_
      cases m with
      | miss => exact moveTo save
      | hit n => exact ih

/-! ## Actions and calls -/

theorem runAction (rule : Rule V) (action : String) (start : Cursor) (length : Nat) :
    ρ.Tracks (Engine.runAction rule action start length)
      (Engine.runAction (rule.retarget ρ.rule) action start length) := by
  refine get fun s => ?_
  rw [show Engine.matchedSince start (ρ.state s).scanner = Engine.matchedSince start s.scanner from rfl,
    show (rule.retarget ρ.rule).action? action = rule.action? action from rfl]
  dsimp only
  cases rule.action? action with
  | none => exact raiseInternal _ _
  | some f =>
    dsimp only [state]
    rcases f s.context (Engine.matchedSince start s.scanner) with ⟨verdict, context⟩
    refine bind (setContext context) fun _ => ?_
    cases verdict with
    | pass => exact pure _
    | reject => exact bind (moveTo start) fun _ => pure _
    | fail cause => exact raise _ _

theorem takeUpValue (rule : Rule V) (call : Call) (callee : Rule V) :
    ρ.Tracks (Engine.takeUpValue rule call callee)
      (Engine.takeUpValue (rule.retarget ρ.rule) (call.retarget ρ.rule) (callee.retarget ρ.rule)) := by
  unfold Engine.takeUpValue
  rw [show (callee.retarget ρ.rule).hasValue = callee.hasValue from rfl]
  split
  · refine get fun s => ?_
    rw [show (ρ.state s).stack = s.stack from rfl]
    rcases s.stack.pop? with _ | ⟨v, stack⟩
    · exact raiseInternal _ _
    · exact bind (setStack stack) fun _ => setContext _
  · exact pure ()

theorem endCall {rules rules' : Array (Rule V)} (ht : ρ.Tables rules rules') (rule : Rule V) (call : Call)
    (id : RuleId) (r : Match) :
    ρ.Tracks (Engine.endCall rules rule call id r)
      (Engine.endCall rules' (rule.retarget ρ.rule) (call.retarget ρ.rule) (ρ.rule id) r) := by
  unfold Engine.endCall
  rw [ht id]
  cases r with
  | miss => exact pure _
  | hit n =>
    cases rules[id]? with
    | none => exact pure _
    | some callee => exact bind (takeUpValue rule call callee) fun _ => pure _

/-- The same arguments are passed, to the other number of the rule. -/
theorem passArguments (rule : Rule V) (call : Call) (s : State V) :
    outcome (Engine.passArguments (rule.retarget ρ.rule) (call.retarget ρ.rule)) (ρ.state s) =
      ((outcome (Engine.passArguments rule call) s).1.map ρ.rule,
        ρ.state (outcome (Engine.passArguments rule call) s).2) := by
  unfold Engine.passArguments
  rw [outcome_bind, outcome_bind, outcome_get, outcome_get]
  dsimp only [Call.retarget]
  cases call.target with
  | none => rfl
  | some target =>
    dsimp only [Option.map_some]
    have hargs : (rule.retarget ρ.rule).argumentsOf { call with target := some (ρ.rule target) } (ρ.state s).context =
        rule.argumentsOf call s.context := rfl
    simp only [hargs]
    by_cases hlen : (rule.argumentsOf call s.context).length = call.arity
    · rw [if_neg (not_not_intro hlen), if_neg (not_not_intro hlen)]
      rfl
    · rw [if_pos hlen, if_pos hlen]
      rfl

theorem performCall {rules rules' : Array (Rule V)} (ht : ρ.Tables rules rules')
    (hk : ∀ id, ρ.Tracks (invoke id) (invoke' (ρ.rule id))) (rule : Rule V) (call : Call) :
    ρ.Tracks (Engine.performCall rules invoke rule call)
      (Engine.performCall rules' invoke' (rule.retarget ρ.rule) (call.retarget ρ.rule)) := by
  intro s
  unfold Engine.performCall
  rw [outcome_bind, outcome_bind, passArguments]
  rcases outcome (Engine.passArguments rule call) s with ⟨e | id, t⟩
  · rfl
  · exact bind (hk id) (fun r => endCall ht rule call id r) t

/-! ## Patterns and rules -/

theorem describe_retarget (f : RuleId → RuleId) (p : Pattern) :
    (p.mapCalls (Call.retarget f)).describe = p.describe :=
  Pattern.describe_mapCalls (f := Call.retarget f) (fun _ _ => rfl) p

/-- A pattern runs alike under other labels. -/
theorem run {rules rules' : Array (Rule V)} (ht : ρ.Tables rules rules')
    (hk : ∀ id, ρ.Tracks (invoke id) (invoke' (ρ.rule id))) (fuel : Nat) (rule : Rule V) (p : Pattern) :
    ρ.Tracks (p.run rules fuel invoke rule)
      ((p.mapCalls (Call.retarget ρ.rule)).run rules' fuel invoke' (rule.retarget ρ.rule)) := by
  induction p with
  | empty => exact pure _
  | one kind => exact matchOne kind
  | text literal => exact matchText literal
  | keyword word => exact matchKeyword word
  | keywords selector words ih =>
    refine bind here fun start => bind ih fun m => bind here fun stop => ?_
    split
    · exact pure m
    · refine bind (moveTo start) fun _ => ?_
      rw [show (Pattern.keywords (selector.mapCalls (Call.retarget ρ.rule)) words).describe =
        (Pattern.keywords selector words).describe from describe_retarget ρ.rule (.keywords selector words)]
      exact missed _
  | seq first second ih₁ ih₂ =>
    refine bind here fun start => bind ih₁ fun m => ?_
    cases m with
    | miss => exact pure _
    | hit n =>
      refine bind here fun middle => bind (skip hk) fun _ => bind ih₂ fun m => ?_
      match m with
      | .miss => exact bind (moveTo start) fun _ => pure _
      | .hit 0 => exact bind (moveTo middle) fun _ => hitFrom start
      | .hit (n + 1) => exact hitFrom start
  | alt first second ih₁ ih₂ =>
    refine bind here fun start => bind ih₁ fun m => ?_
    cases m with
    | hit n => exact pure _
    | miss => exact bind (moveTo start) fun _ => ih₂
  | diff subject excluded ih₁ ih₂ =>
    refine bind here fun start => bind ih₁ fun m => ?_
    cases m with
    | miss => exact bind (moveTo start) fun _ => pure _
    | hit n =>
      refine bind here fun after => bind (moveTo start) fun _ => bind ih₂ fun m => ?_
      split <;> exact bind (moveTo _) fun _ => pure _
  | list item separator ih₁ ih₂ =>
    refine bind here fun start => bind ih₁ fun m => ?_
    cases m with
    | miss => exact pure _
    | hit n => exact bind (repeatItems (skip hk) ih₂ ih₁ fuel) fun _ => hitFrom start
  | opt subject ih =>
    refine bind here fun start => bind ih fun m => ?_
    cases m with
    | hit n => exact pure _
    | miss => exact bind (moveTo start) fun _ => pure _
  | many subject ih => exact bind here fun start => bind (repeatBody (skip hk) ih fuel true) fun _ => hitFrom start
  | many1 subject ih =>
    refine bind here fun start => bind ih fun m => ?_
    cases m with
    | miss => exact pure _
    | hit n => exact bind (repeatBody (skip hk) ih fuel false) fun _ => hitFrom start
  | expect subject ih =>
    refine bind ih fun m => ?_
    cases m with
    | hit n => exact pure _
    | miss =>
      refine get fun s => ?_
      rw [describe_retarget]
      exact throw _
  | token subject ih => exact bracket (fun _ => rfl) (fun _ => rfl) ih
  | lookahead subject ih => exact bind here fun start => bind ih fun m => bind (moveTo start) fun _ => pure _
  | notAhead subject ih => exact bind here fun start => bind ih fun m => bind (moveTo start) fun _ => pure _
  | act action subject ih =>
    refine bind here fun start => bind ih fun m => ?_
    cases m with
    | miss => exact pure _
    | hit n => exact runAction rule action start n
  | call c => exact performCall ht hk rule c

end

theorem pushValue (rule : Rule V) (start : Cursor) :
    ρ.Tracks (Engine.pushValue rule start) (Engine.pushValue (rule.retarget ρ.rule) start) := by
  unfold Engine.pushValue
  rw [show (rule.retarget ρ.rule).hasValue = rule.hasValue from rfl]
  split
  · refine get fun s => ?_
    rw [show (ρ.state s).context = s.context from rfl]
    cases s.context.value with
    | some v => exact setStack _
    | none => exact raiseInternal _ _
  · exact pure ()

theorem enter (rule : Rule V) : ρ.Tracks (Engine.enter rule) (Engine.enter (rule.retarget ρ.rule)) := by
  refine get fun s => ?_
  rw [show (ρ.state s).stack.popN? (rule.retarget ρ.rule).arity = s.stack.popN? rule.arity from rfl]
  rcases s.stack.popN? rule.arity with _ | ⟨args, stack⟩
  · exact raiseInternal _ _
  · refine bind (setStack stack) fun _ => bind (setContext _) fun _ => onScanner fun s => ?_
    exact scanner_enterRule s _

theorem leave (rule : Rule V) (before : State V) (outcome : Except Stop Match) :
    ρ.Tracks (Engine.leave rule before outcome) (Engine.leave (rule.retarget ρ.rule) (ρ.state before) outcome) := by
  refine bind (onScanner fun s => scanner_leaveRule s _ _ _) fun _ => ?_
  match outcome with
  | .error e => exact throw e
  | .ok .miss => exact bind (setContext _) fun _ => pure _
  | .ok (.hit n) => exact bind (pushValue rule _) fun _ => bind (setContext _) fun _ => pure _

theorem matchRule (rule : Rule V) {body body' : Engine V Match} (h : ρ.Tracks body body') :
    ρ.Tracks (Engine.matchRule rule body) (Engine.matchRule (rule.retarget ρ.rule) body') :=
  get fun s => bind (enter rule) fun _ => bind (attempt h) fun outcome => leave rule s outcome

theorem invoke {rules rules' : Array (Rule V)} (ht : ρ.Tables rules rules') (fuel : Nat) (id : RuleId) :
    ρ.Tracks (Engine.invoke rules fuel id) (Engine.invoke rules' fuel (ρ.rule id)) := by
  induction fuel generalizing id with
  | zero => exact throw _
  | succ fuel ih =>
    unfold Engine.invoke
    rw [ht id]
    cases rules[id]? with
    | none => exact throw _
    | some rule => exact matchRule rule (run ht ih fuel rule _)

/-! ## Parses -/

theorem endStart (rule : Rule V) (depth : Nat) (r : Match) :
    ρ.Tracks (Engine.endStart rule depth r) (Engine.endStart (rule.retarget ρ.rule) depth r) := by
  refine get fun s => ?_
  rw [show (ρ.state s).scanner.atEnd = s.scanner.atEnd from rfl, show (ρ.state s).stack = s.stack from rfl,
    show (rule.retarget ρ.rule).hasValue = rule.hasValue from rfl]
  dsimp only
  split
  · exact throw _
  split
  · exact pure _
  rcases s.stack.pop? with _ | ⟨v, stack⟩
  · exact raiseInternal _ _
  · refine bind (setStack stack) fun _ => ?_
    split
    · exact pure _
    · exact raiseInternal _ _

theorem runStart {invoke invoke' : RuleId → Engine V Match} (hk : ∀ id, ρ.Tracks (invoke id) (invoke' (ρ.rule id)))
    (id : RuleId) (rule : Rule V) (depth : Nat) :
    ρ.Tracks (Engine.runStart invoke id rule depth)
      (Engine.runStart invoke' (ρ.rule id) (rule.retarget ρ.rule) depth) := by
  have hmatch : ρ.Tracks (Engine.matchStart invoke id) (Engine.matchStart invoke' (ρ.rule id)) := by
    refine bind (skip hk) fun _ => bind (hk id) fun m => ?_
    dsimp only
    split
    · exact bind (skip hk) fun _ => pure m
    · exact pure m
  exact bind hmatch fun r => endStart rule depth r

end Relabelling.Tracks

/-- Parses over tables and grammars that differ in the numbers of the rules and in what is traced. -/
theorem Domain.parseIn_relabel {d d' : Domain V} (ht : ρ.Tables d.rules d'.rules) (hsize : d'.rules.size = d.rules.size)
    {g g' : Grammar} (hname : g'.name = g.name) (hstart : g'.start = g.start.map ρ.rule)
    (hskip : g'.skip = g.skip.map ρ.rule) (options options' : Options) (hfile : options'.file = options.file)
    (hindex : options'.fileIndex = options.fileIndex)
    (htrace : (if options'.trace then some .empty else none) = ρ.trace (if options.trace then some .empty else none))
    (source : String) (args : List V) (session : Session V) :
    (d'.parseIn g' source options' args session).1 = (d.parseIn g source options args session).1 ∧
      (d'.parseIn g' source options' args session).2.stack = (d.parseIn g source options args session).2.stack ∧
      ((∀ t, ρ.trace t = t) → (d'.parseIn g' source options' args session).2.trace =
        (d.parseIn g source options args session).2.trace) := by
  have hstate : startState g' source options' (session.stack.pushAll args) =
      ρ.state (startState g source options (session.stack.pushAll args)) := by
    simp only [startState, Relabelling.state, Relabelling.scanner, hfile, hindex, hskip, htrace]
  have hfuel : d'.fuelOf source = d.fuelOf source := by
    simp only [fuelOf, hsize]
  rcases hs : g.start with _ | start
  · have hs' : g'.start = none := by rw [hstart, hs]; rfl
    simp [parseIn, hs, hs', hname]
  have hs' : g'.start = some (ρ.rule start) := by rw [hstart, hs]; rfl
  rcases hr : d.rules[start]? with _ | rule
  · have hr' : d'.rules[ρ.rule start]? = none := by rw [ht, hr]; rfl
    simp [parseIn, hs, hs', rule?, hr, hr', hname]
  have hr' : d'.rules[ρ.rule start]? = some (rule.retarget ρ.rule) := by rw [ht, hr]; rfl
  by_cases ha : args.length = rule.arity
  · have hrun := Relabelling.Tracks.runStart (Relabelling.Tracks.invoke ht (d.fuelOf source)) start rule
      session.stack.size (startState g source options (session.stack.pushAll args))
    rw [parseIn_eq hs hr source options ha, parseIn_eq hs' hr' source options' ha, hstate, hfuel, hrun]
    exact ⟨rfl, rfl, fun hid => hid _⟩
  · simp only [parseIn, hs, hs', Option.bind_some, rule?, hr, hr', hname]
    rw [show (rule.retarget ρ.rule).arity = rule.arity from rfl, if_pos ha, if_pos ha]
    exact ⟨rfl, rfl, fun _ => rfl⟩

end PegFront
