import PegFront.Peg.Session
import PegFront.Proofs.Wp

/-!
# Histories of runs

The engine keeps only what the program needs: where it stands, not where it has been. A recorder is the
engine with a history beside its state. It takes the same steps and notes each terminal it tries, each
application of the skip rule, each action, each call and each match of a rule; `Erases` says that a
recorder without its history is the engine, so that what holds of histories holds of runs.
-/

namespace PegFront

/-- What happens in a run. -/
inductive Event (V : Type) where
  /-- A terminal was tried at an offset, inside or outside the skip rule. -/
  | tried (terminal : Pattern) (offset : Nat) (skipping : Bool) (found : Match)
  /-- The skip rule was applied. -/
  | skipped (offset : Nat)
  /-- An action of a rule ran. -/
  | acted (rule : Rule V) (action : String) (context : Context V) (matched : Matched)
  /-- The arguments of a call were computed. -/
  | called (rule : Rule V) (call : Call) (context : Context V)
  /-- A rule matched and its context was this. -/
  | matched (rule : Rule V) (context : Context V)

/-- The engine with a history, the latest event first. -/
abbrev Recorder (V : Type) := ExceptT Stop (StateM (State V × List (Event V)))

namespace Recorder

open Engine (here moveTo onScanner hitFrom missed)

variable {V α β : Type}

/-- A step of the engine that leaves no trace in the history. -/
def lift (m : Engine V α) : Recorder V α :=
  .mk fun (s, events) => ((outcome m s).1, (outcome m s).2, events)

def state : Recorder V (State V) := lift get

def record (e : Event V) : Recorder V Unit :=
  modify fun (s, events) => (s, e :: events)

def attempt (body : Recorder V α) : Recorder V (Except Stop α) := ExceptT.lift body.run

def bracket (before after : Scanner → Scanner) (body : Recorder V α) : Recorder V α := do
  lift (onScanner before)
  let outcome ← attempt body
  lift (onScanner after)
  lift (Engine.bracket.liftExcept outcome)

def terminal (p : Pattern) (body : Engine V Match) : Recorder V Match := do
  let s ← state
  let m ← lift body
  record (.tried p s.scanner.offset s.scanner.skipping m)
  return m

def skip (invoke : RuleId → Recorder V Match) : Recorder V Unit := do
  let s ← state
  match s.scanner.skipRule with
  | none => return
  | some id =>
    if s.scanner.canSkip then
      record (.skipped s.scanner.offset)
      let outcome ← attempt (bracket (.setSkipping true) (.setSkipping false) (invoke id))
      lift (Engine.endSkip s outcome)

def repeatBody (skip : Recorder V Unit) (body : Recorder V Match) :
    Nat → (first : Bool) → Recorder V Unit
  | 0, _ => throw .exhausted
  | fuel + 1, first => do
    let s ← state
    if s.scanner.atEnd then return
    if !first then skip
    match ← body with
    | .miss => lift (moveTo s.scanner.cursor)
    | .hit _ => repeatBody skip body fuel false

def repeatItems (skip : Recorder V Unit) (separator item : Recorder V Match) : Nat → Recorder V Unit
  | 0 => throw .exhausted
  | fuel + 1 => do
    let save ← lift here
    skip
    match ← separator with
    | .miss => lift (moveTo save)
    | .hit _ =>
      skip
      match ← item with
      | .miss => lift (moveTo save)
      | .hit _ => repeatItems skip separator item fuel

def runAction (rule : Rule V) (action : String) (start : Cursor) (length : Nat) :
    Recorder V Match := do
  let s ← state
  record (.acted rule action s.context (Engine.matchedSince start s.scanner))
  lift (Engine.runAction rule action start length)

def performCall (rules : Array (Rule V)) (invoke : RuleId → Recorder V Match) (rule : Rule V)
    (call : Call) : Recorder V Match := do
  let s ← state
  record (.called rule call s.context)
  let target ← lift (Engine.passArguments rule call)
  let m ← invoke target
  lift (Engine.endCall rules rule call target m)

end Recorder

open Recorder in
open Engine (here moveTo hitFrom missed) in
/-- `Pattern.run` with a history. -/
def Pattern.record {V : Type} (rules : Array (Rule V)) (fuel : Nat)
    (invoke : RuleId → Recorder V Match) (rule : Rule V) : Pattern → Recorder V Match
  | .empty => return .empty
  | .one kind => terminal (.one kind) (Engine.matchOne kind)
  | .text literal => terminal (.text literal) (Engine.matchText literal)
  | .keyword word => terminal (.keyword word) (Engine.matchKeyword word)
  | .keywords selector words => do
    let start ← lift here
    let m ← selector.record rules fuel invoke rule
    let stop ← lift here
    if m.isHit && words.contains (String.ofList (start.textTo stop.offset)) then return m
    lift (moveTo start)
    terminal (.keywords selector words) (missed (Pattern.keywords selector words).describe)
  | .seq first second => do
    let start ← lift here
    match ← first.record rules fuel invoke rule with
    | .miss => return .miss
    | .hit _ =>
      let middle ← lift here
      skip invoke
      match ← second.record rules fuel invoke rule with
      | .miss =>
        lift (moveTo start)
        return .miss
      | .hit 0 =>
        lift (moveTo middle)
        lift (hitFrom start)
      | .hit _ => lift (hitFrom start)
  | .alt first second => do
    let start ← lift here
    match ← first.record rules fuel invoke rule with
    | .hit n => return .hit n
    | .miss =>
      lift (moveTo start)
      second.record rules fuel invoke rule
  | .diff subject excluded => do
    let start ← lift here
    match ← subject.record rules fuel invoke rule with
    | .miss =>
      lift (moveTo start)
      return .miss
    | .hit n =>
      let after ← lift here
      lift (moveTo start)
      let m ← excluded.record rules fuel invoke rule
      if m.length?.any (n ≤ ·) then
        lift (moveTo start)
        return .miss
      else
        lift (moveTo after)
        return .hit n
  | .list item separator => do
    let start ← lift here
    match ← item.record rules fuel invoke rule with
    | .miss => return .miss
    | .hit _ =>
      repeatItems (skip invoke) (separator.record rules fuel invoke rule)
        (item.record rules fuel invoke rule) fuel
      lift (hitFrom start)
  | .opt subject => do
    let start ← lift here
    match ← subject.record rules fuel invoke rule with
    | .hit n => return .hit n
    | .miss =>
      lift (moveTo start)
      return .empty
  | .many subject => do
    let start ← lift here
    repeatBody (skip invoke) (subject.record rules fuel invoke rule) fuel true
    lift (hitFrom start)
  | .many1 subject => do
    let start ← lift here
    match ← subject.record rules fuel invoke rule with
    | .miss => return .miss
    | .hit _ =>
      repeatBody (skip invoke) (subject.record rules fuel invoke rule) fuel false
      lift (hitFrom start)
  | .expect subject => do
    match ← subject.record rules fuel invoke rule with
    | .hit n => return .hit n
    | .miss =>
      let s ← state
      throw (.error (s.scanner.expectationFailure subject.describe s.scanner.offset))
  | .token subject => bracket (·.beginToken) (·.endToken) (subject.record rules fuel invoke rule)
  | .lookahead subject => do
    let start ← lift here
    let m ← subject.record rules fuel invoke rule
    lift (moveTo start)
    return if m.isHit then .empty else .miss
  | .notAhead subject => do
    let start ← lift here
    let m ← subject.record rules fuel invoke rule
    lift (moveTo start)
    return if m.isHit then .miss else .empty
  | .act action subject => do
    let start ← lift here
    match ← subject.record rules fuel invoke rule with
    | .miss => return .miss
    | .hit n => runAction rule action start n
  | .call c => performCall rules invoke rule c

namespace Recorder

variable {V : Type}

def matchRule (rule : Rule V) (body : Recorder V Match) : Recorder V Match := do
  let s ← state
  lift (Engine.enter rule)
  let outcome ← attempt body
  let t ← state
  match outcome with
  | .ok (.hit _) => record (.matched rule t.context)
  | _ => pure ()
  lift (Engine.leave rule s outcome)

def invoke (rules : Array (Rule V)) : Nat → RuleId → Recorder V Match
  | 0, _ => throw .exhausted
  | fuel + 1, id =>
    match rules[id]? with
    | none => throw .exhausted
    | some rule => matchRule rule (rule.definition.record rules fuel (invoke rules fuel) rule)

def matchStart (invoke : RuleId → Recorder V Match) (id : RuleId) : Recorder V Match := do
  skip invoke
  let m ← invoke id
  if m.isHit then skip invoke
  return m

end Recorder

/-- The history of a parse with the arguments, on a fresh session. -/
def Domain.history {V : Type} (d : Domain V) (g : Grammar) (source : String) (options : Options)
    (args : List V) : List (Event V) :=
  match g.start with
  | none => []
  | some start =>
    (outcome (Recorder.matchStart (Recorder.invoke d.rules (d.fuelOf source)) start)
      (startState g source options (Stack.empty.pushAll args), [])).2.2

/-! ## Weakest preconditions -/

namespace Recorder

variable {V α : Type} {p : State V × List (Event V)} {E : Stop → State V × List (Event V) → Prop}

theorem outcome_lift (m : Engine V α) :
    outcome (lift m) p = ((outcome m p.1).1, (outcome m p.1).2, p.2) := rfl

theorem wp_lift {Q : α → State V × List (Event V) → Prop} (m : Engine V α) :
    wp (lift m) Q E p ↔ wp m (fun a t => Q a (t, p.2)) (fun e t => E e (t, p.2)) p.1 := by
  unfold wp
  rw [outcome_lift]
  rcases outcome m p.1 with ⟨e | a, t⟩ <;> rfl

theorem wp_state {Q : State V → State V × List (Event V) → Prop} : wp state Q E p ↔ Q p.1 p := Iff.rfl

theorem wp_record {Q : Unit → State V × List (Event V) → Prop} (e : Event V) :
    wp (record e) Q E p ↔ Q () (p.1, e :: p.2) := Iff.rfl

theorem outcome_attempt (r : Recorder V α) :
    outcome (attempt r) p = (.ok (outcome r p).1, (outcome r p).2) := rfl

theorem wp_attempt {Q : Except Stop α → State V × List (Event V) → Prop} (r : Recorder V α) :
    wp (attempt r) Q E p ↔ wp r (fun a => Q (.ok a)) (fun e => Q (.error e)) p := by
  unfold wp
  rw [outcome_attempt]
  rcases outcome r p with ⟨e | a, t⟩ <;> rfl

theorem outcome_bracket (before after : Scanner → Scanner) (r : Recorder V α) :
    outcome (bracket before after r) p =
      let o := outcome r ({ p.1 with scanner := before p.1.scanner }, p.2)
      (o.1, { o.2.1 with scanner := after o.2.1.scanner }, o.2.2) := by
  unfold bracket
  rw [outcome_bind]
  show outcome (attempt r >>= _) ({ p.1 with scanner := before p.1.scanner }, p.2) = _
  rw [outcome_bind, outcome_attempt]
  rcases outcome r ({ p.1 with scanner := before p.1.scanner }, p.2) with ⟨e | a, t⟩ <;> rfl

theorem wp_bracket {Q : α → State V × List (Event V) → Prop} (before after : Scanner → Scanner)
    (r : Recorder V α) :
    wp (bracket before after r) Q E p ↔
      wp r (fun a t => Q a ({ t.1 with scanner := after t.1.scanner }, t.2))
        (fun e t => E e ({ t.1 with scanner := after t.1.scanner }, t.2))
        ({ p.1 with scanner := before p.1.scanner }, p.2) := by
  unfold wp
  rw [outcome_bracket]
  rcases outcome r ({ p.1 with scanner := before p.1.scanner }, p.2) with ⟨e | a, t⟩ <;> rfl

end Recorder

/-! ## Erasure -/

/-- Without its history a recorder is a computation of the engine. -/
def Erases {V α : Type} (r : Recorder V α) (m : Engine V α) : Prop :=
  ∀ s events, ∃ events', outcome r (s, events) = ((outcome m s).1, (outcome m s).2, events')

namespace Erases

variable {V α β : Type} {r : Recorder V α} {m : Engine V α}

/-- What a recorder's run says about the state holds of the engine. -/
theorem wp {Q : α → State V → Prop} {E : Stop → State V → Prop} {s : State V}
    {events : List (Event V)} (h : Erases r m)
    (hr : wp r (fun a q => Q a q.1) (fun e q => E e q.1) (s, events)) : wp m Q E s := by
  obtain ⟨events₁, h₁⟩ := h s events
  refine wp_of_outcome (fun a t ho => ?_) fun e t ho => ?_
  · rw [ho] at h₁
    have := wp_ok hr h₁
    exact this
  · rw [ho] at h₁
    have := wp_error hr h₁
    exact this

theorem pure (a : α) : Erases (pure a : Recorder V α) (pure a) := fun _ events => ⟨events, rfl⟩

theorem throw (e : Stop) : Erases (throw e : Recorder V α) (throw e) := fun _ events => ⟨events, rfl⟩

theorem lift (m : Engine V α) : Erases (Recorder.lift m) m := fun _ events => ⟨events, rfl⟩

theorem bind {f : α → Recorder V β} {g : α → Engine V β} (h : Erases r m)
    (hf : ∀ a, Erases (f a) (g a)) : Erases (r >>= f) (m >>= g) := by
  intro s events
  obtain ⟨events₁, h₁⟩ := h s events
  rw [outcome_bind, outcome_bind, h₁]
  rcases outcome m s with ⟨e | a, t⟩
  · exact ⟨events₁, rfl⟩
  · exact hf a t events₁

theorem record (e : Event V) (h : Erases r m) : Erases (Recorder.record e >>= fun _ => r) m := by
  intro s events
  rw [outcome_bind]
  exact h s (e :: events)

theorem attempt (h : Erases r m) : Erases (Recorder.attempt r) (Engine.attempt m) := by
  intro s events
  obtain ⟨events₁, h₁⟩ := h s events
  refine ⟨events₁, ?_⟩
  show (Except.ok (outcome r (s, events)).1, (outcome r (s, events)).2) = _
  rw [h₁]; rfl

theorem bracket (before after : Scanner → Scanner) (h : Erases r m) :
    Erases (Recorder.bracket before after r) (Engine.bracket before after m) :=
  bind (lift _) fun _ => bind (attempt h) fun _ => bind (lift _) fun _ => lift _

theorem state {f : State V → Recorder V α} (h : ∀ s, Erases (f s) m) :
    Erases (Recorder.state >>= f) m := fun s events => h s s events

theorem terminal (p : Pattern) (m : Engine V Match) : Erases (Recorder.terminal p m) m := by
  refine state fun before s events => ?_
  rw [outcome_bind, Recorder.outcome_lift]
  rcases outcome m s with ⟨e | a, t⟩ <;> exact ⟨_, rfl⟩

variable {k : RuleId → Recorder V Match} {k' : RuleId → Engine V Match}

theorem skip (h : ∀ id, Erases (k id) (k' id)) :
    Erases (Recorder.skip k) (Engine.skip k') := by
  refine bind (lift _) fun s => ?_
  cases s.scanner.skipRule with
  | none => exact pure ()
  | some id =>
    dsimp only
    split
    · exact record _ (bind (attempt (bracket _ _ (h id))) fun _ => lift _)
    · exact pure ()

theorem repeatBody {skip : Recorder V Unit} {skip' : Engine V Unit} {body : Recorder V Match}
    {body' : Engine V Match} (hs : Erases skip skip') (hb : Erases body body') (fuel : Nat)
    (first : Bool) :
    Erases (Recorder.repeatBody skip body fuel first) (Engine.repeatBody skip' body' fuel first) := by
  induction fuel generalizing first with
  | zero => exact throw _
  | succ fuel ih =>
    refine bind (lift _) fun s => ?_
    split
    · exact pure ()
    have round : Erases
        (do match ← body with
            | .miss => Recorder.lift (Engine.moveTo s.scanner.cursor)
            | .hit _ => Recorder.repeatBody skip body fuel false)
        (do match ← body' with
            | .miss => Engine.moveTo s.scanner.cursor
            | .hit _ => Engine.repeatBody skip' body' fuel false) := by
      refine bind hb fun m => ?_
      cases m with
      | miss => exact lift _
      | hit n => exact ih false
    cases first with
    | true => exact round
    | false => exact bind hs fun _ => round

theorem repeatItems {skip : Recorder V Unit} {skip' : Engine V Unit}
    {separator item : Recorder V Match} {separator' item' : Engine V Match} (hs : Erases skip skip')
    (hp : Erases separator separator') (hi : Erases item item') (fuel : Nat) :
    Erases (Recorder.repeatItems skip separator item fuel)
      (Engine.repeatItems skip' separator' item' fuel) := by
  induction fuel with
  | zero => exact throw _
  | succ fuel ih =>
    refine bind (lift _) fun save => bind hs fun _ => bind hp fun m => ?_
    cases m with
    | miss => exact lift _
    | hit n =>
      refine bind hs fun _ => bind hi fun m => ?_
      cases m with
      | miss => exact lift _
      | hit n => exact ih

theorem runAction (rule : Rule V) (action : String) (start : Cursor) (length : Nat) :
    Erases (Recorder.runAction rule action start length)
      (Engine.runAction rule action start length) :=
  state fun _ => record _ (lift _)

theorem performCall (rules : Array (Rule V)) (h : ∀ id, Erases (k id) (k' id)) (rule : Rule V)
    (call : Call) :
    Erases (Recorder.performCall rules k rule call) (Engine.performCall rules k' rule call) :=
  state fun _ => record _ (bind (lift _) fun target => bind (h target) fun _ => lift _)

theorem run (rules : Array (Rule V)) (fuel : Nat) (h : ∀ id, Erases (k id) (k' id)) (rule : Rule V)
    (p : Pattern) : Erases (p.record rules fuel k rule) (p.run rules fuel k' rule) := by
  induction p with
  | empty => exact pure _
  | one kind => exact terminal _ _
  | text literal => exact terminal _ _
  | keyword word => exact terminal _ _
  | keywords selector words ih =>
    refine bind (lift _) fun start => bind ih fun m => bind (lift _) fun stop => ?_
    split
    · exact pure m
    · exact bind (lift _) fun _ => terminal _ _
  | seq first second ih₁ ih₂ =>
    refine bind (lift _) fun start => bind ih₁ fun m => ?_
    cases m with
    | miss => exact pure _
    | hit n =>
      refine bind (lift _) fun middle => bind (skip h) fun _ => bind ih₂ fun m => ?_
      match m with
      | .miss => exact bind (lift _) fun _ => pure _
      | .hit 0 => exact bind (lift _) fun _ => lift _
      | .hit (n + 1) => exact lift _
  | alt first second ih₁ ih₂ =>
    refine bind (lift _) fun start => bind ih₁ fun m => ?_
    cases m with
    | hit n => exact pure _
    | miss => exact bind (lift _) fun _ => ih₂
  | diff subject excluded ih₁ ih₂ =>
    refine bind (lift _) fun start => bind ih₁ fun m => ?_
    cases m with
    | miss => exact bind (lift _) fun _ => pure _
    | hit n =>
      refine bind (lift _) fun after => bind (lift _) fun _ => bind ih₂ fun m => ?_
      split <;> exact bind (lift _) fun _ => pure _
  | list item separator ih₁ ih₂ =>
    refine bind (lift _) fun start => bind ih₁ fun m => ?_
    cases m with
    | miss => exact pure _
    | hit n => exact bind (repeatItems (skip h) ih₂ ih₁ fuel) fun _ => lift _
  | opt subject ih =>
    refine bind (lift _) fun start => bind ih fun m => ?_
    cases m with
    | hit n => exact pure _
    | miss => exact bind (lift _) fun _ => pure _
  | many subject ih =>
    exact bind (lift _) fun start => bind (repeatBody (skip h) ih fuel true) fun _ => lift _
  | many1 subject ih =>
    refine bind (lift _) fun start => bind ih fun m => ?_
    cases m with
    | miss => exact pure _
    | hit n => exact bind (repeatBody (skip h) ih fuel false) fun _ => lift _
  | expect subject ih =>
    refine bind ih fun m => ?_
    cases m with
    | hit n => exact pure _
    | miss => exact bind (lift _) fun s => throw _
  | token subject ih => exact bracket _ _ ih
  | lookahead subject ih =>
    exact bind (lift _) fun start => bind ih fun m => bind (lift _) fun _ => pure _
  | notAhead subject ih =>
    exact bind (lift _) fun start => bind ih fun m => bind (lift _) fun _ => pure _
  | act action subject ih =>
    refine bind (lift _) fun start => bind ih fun m => ?_
    cases m with
    | miss => exact pure _
    | hit n => exact runAction rule action start n
  | call c => exact performCall rules h rule c

theorem matchRule (rule : Rule V) {body : Recorder V Match} {body' : Engine V Match}
    (h : Erases body body') : Erases (Recorder.matchRule rule body) (Engine.matchRule rule body') := by
  refine bind (lift _) fun s => bind (lift _) fun _ => bind (attempt h) fun outcome => ?_
  refine state fun t => ?_
  match outcome with
  | .ok (.hit n) => exact record _ (lift _)
  | .ok .miss => exact lift _
  | .error e => exact lift _

theorem invoke (rules : Array (Rule V)) (fuel : Nat) (id : RuleId) :
    Erases (Recorder.invoke rules fuel id) (Engine.invoke rules fuel id) := by
  induction fuel generalizing id with
  | zero => exact throw _
  | succ fuel ih =>
    unfold Recorder.invoke Engine.invoke
    cases rules[id]? with
    | none => exact throw _
    | some rule => exact matchRule rule (run rules fuel ih rule _)

theorem matchStart (h : ∀ id, Erases (k id) (k' id)) (id : RuleId) :
    Erases (Recorder.matchStart k id) (Engine.matchStart k' id) := by
  refine bind (skip h) fun _ => bind (h id) fun m => ?_
  cases m with
  | miss => exact pure _
  | hit n => exact bind (skip h) fun _ => pure _

end Erases

/-- The history of a parse is that of its run. -/
theorem Domain.outcome_history {V : Type} (d : Domain V) {g : Grammar} {start : RuleId}
    (hs : g.start = some start) (source : String) (options : Options) (args : List V) :
    outcome (Recorder.matchStart (Recorder.invoke d.rules (d.fuelOf source)) start)
        (startState g source options (Stack.empty.pushAll args), []) =
      let run := outcome (Engine.matchStart (Engine.invoke d.rules (d.fuelOf source)) start)
        (startState g source options (Stack.empty.pushAll args))
      (run.1, run.2, d.history g source options args) := by
  obtain ⟨events, h⟩ := Erases.matchStart (Erases.invoke d.rules (d.fuelOf source)) start
    (startState g source options (Stack.empty.pushAll args)) []
  unfold Domain.history
  rw [hs]
  dsimp only
  rw [h]

end PegFront
