import PegFront.Proofs.History
import PegFront.Proofs.Link

/-!
# The balance of the stack

All rules work on one stack: a caller pushes arguments, the rule it calls takes them off and may leave a
value. In a linked domain nobody reaches below what was pushed for him. So a run does not depend on the
values below its own (`Framed`), they are there untouched when it ends, and a pattern that ends leaves
the stack as it was (`Balanced`).

The same walk through the engine tells what a run can stop with. No call finds too few values on the
stack, so what is left is a construct that is missing in the input, an action that fails the parse, a call
that is passed the wrong number of arguments, and a rule that matches without its value (`Fault`).
-/

namespace PegFront

variable {V α β σ : Type}

/-! ## Runs over other values -/

def Stack.onto (s : Stack V) (base : List V) : Stack V := ⟨s.values ++ base⟩

/-- States whose stack can stand on other values. -/
class Stacked (σ : Type) (V : outParam Type) where
  onto : σ → List V → σ

instance : Stacked (State V) V where
  onto s base := { s with stack := s.stack.onto base }

instance : Stacked (State V × List (Event V)) V where
  onto p base := (Stacked.onto p.1 base, p.2)

open Stacked (onto)

section
variable (s : State V) (p : State V × List (Event V)) (base : List V)

@[simp] theorem onto_scanner : (onto s base).scanner = s.scanner := rfl

@[simp] theorem onto_context : (onto s base).context = s.context := rfl

@[simp] theorem onto_stack : (onto s base).stack = s.stack.onto base := rfl

@[simp] theorem onto_fst : (onto p base).1 = onto p.1 base := rfl

end

/-- Over `base`, the computation `m'` does what `m` does without it. -/
def Framed [Stacked σ V] (base : List V) (m m' : ExceptT Stop (StateM σ) α) (s : σ) : Prop :=
  outcome m' (onto s base) = ((outcome m s).1, onto (outcome m s).2 base)

/-- The run does not depend on what is below its stack, and it ends in `Q` or stops in `E`. -/
def Tidy [Stacked σ V] (m : ExceptT Stop (StateM σ) α) (Q : α → σ → Prop) (E : Stop → σ → Prop)
    (s : σ) : Prop :=
  (∀ base, Framed base m m s) ∧ wp m Q E s

namespace Framed

variable [Stacked σ V] {base : List V} {m m' : ExceptT Stop (StateM σ) α} {s : σ}

theorem bind {f f' : α → ExceptT Stop (StateM σ) β} {E : Stop → σ → Prop} (h : Framed base m m' s)
    (hf : wp m (fun a t => Framed base (f a) (f' a) t) E s) :
    Framed base (m >>= f) (m' >>= f') s := by
  unfold Framed at h ⊢
  rw [outcome_bind, outcome_bind, h]
  unfold wp at hf
  rcases hm : outcome m s with ⟨e | a, t⟩
  · rfl
  · simp only [hm] at hf
    exact hf

theorem get {f f' : σ → ExceptT Stop (StateM σ) α} (h : Framed base (f s) (f' (onto s base)) s) :
    Framed base (get >>= f) (get >>= f') s := by
  unfold Framed at h ⊢
  rw [outcome_bind, outcome_bind]
  exact h

theorem lift {m m' : Engine V α} {p : State V × List (Event V)} (h : Framed base m m' p.1) :
    Framed base (Recorder.lift m) (Recorder.lift m') p := by
  unfold Framed at h ⊢
  rw [Recorder.outcome_lift, Recorder.outcome_lift, onto_fst, h]
  rfl

theorem state {f f' : State V → Recorder V α} {p : State V × List (Event V)}
    (h : Framed base (f p.1) (f' (onto p.1 base)) p) :
    Framed base (Recorder.state >>= f) (Recorder.state >>= f') p := h

theorem attempt {r r' : Recorder V α} {p : State V × List (Event V)} (h : Framed base r r' p) :
    Framed base (Recorder.attempt r) (Recorder.attempt r') p := by
  unfold Framed at h ⊢
  rw [Recorder.outcome_attempt, Recorder.outcome_attempt, h]

end Framed

namespace Tidy

section
variable [Stacked σ V] {m : ExceptT Stop (StateM σ) α} {Q Q' : α → σ → Prop} {E E' : Stop → σ → Prop}
  {s : σ}

theorem mono (h : Tidy m Q E s) (hQ : ∀ a t, Q a t → Q' a t) (hE : ∀ e t, E e t → E' e t) :
    Tidy m Q' E' s := ⟨h.1, wp_mono h.2 hQ hE⟩

theorem bind {f : α → ExceptT Stop (StateM σ) β} {Q' : β → σ → Prop} (h : Tidy m Q E s)
    (hf : ∀ a t, Q a t → Tidy (f a) Q' E t) : Tidy (m >>= f) Q' E s := by
  constructor
  · intro base
    exact (h.1 base).bind (wp_mono h.2 (fun a t ht => (hf a t ht).1 base) fun _ _ h => h)
  · exact wp_then h.2 fun a t ht => (hf a t ht).2

/-- A computation that looks at the state, but not at the stack. -/
theorem get {f : σ → ExceptT Stop (StateM σ) α} (h : ∀ base, f (onto s base) = f s)
    (hf : Tidy (f s) Q E s) : Tidy (get >>= f) Q E s := by
  refine ⟨fun base => Framed.get ?_, (wp_bind _ _).2 (wp_get.2 hf.2)⟩
  rw [h base]
  exact hf.1 base

theorem pure {a : α} (h : Q a s) : Tidy (pure a) Q E s := ⟨fun _ => rfl, h⟩

theorem throw {e : Stop} (h : E e s) : Tidy (throw e) Q E s := ⟨fun _ => rfl, h⟩

end

section
variable {s : State V} {E : Stop → State V → Prop}

theorem setContext {Q : Unit → State V → Prop} {context : Context V} (h : Q () { s with context }) :
    Tidy (Engine.setContext context) Q E s := ⟨fun _ => rfl, h⟩

theorem onScanner {Q : Unit → State V → Prop} {f : Scanner → Scanner}
    (h : Q () { s with scanner := f s.scanner }) : Tidy (Engine.onScanner f) Q E s :=
  ⟨fun _ => rfl, h⟩

end

section
variable {r : Recorder V α} {p : State V × List (Event V)} {Q : α → State V × List (Event V) → Prop}
  {E : Stop → State V × List (Event V) → Prop}

theorem lift {m : Engine V α}
    (h : Tidy m (fun a t => Q a (t, p.2)) (fun e t => E e (t, p.2)) p.1) :
    Tidy (Recorder.lift m) Q E p :=
  ⟨fun base => Framed.lift (h.1 base), (Recorder.wp_lift m).2 h.2⟩

theorem state {f : State V → Recorder V α} (h : ∀ base, f (onto p.1 base) = f p.1)
    (hf : Tidy (f p.1) Q E p) : Tidy (Recorder.state >>= f) Q E p := by
  refine ⟨fun base => Framed.state ?_, (wp_bind _ _).2 hf.2⟩
  rw [h base]
  exact hf.1 base

theorem record {Q : Unit → State V × List (Event V) → Prop} {e : Event V}
    (h : Q () (p.1, e :: p.2)) : Tidy (Recorder.record e) Q E p := ⟨fun _ => rfl, h⟩

theorem attempt {Q : Except Stop α → State V × List (Event V) → Prop} (h : ∀ base, Framed base r r p)
    (hQ : wp r (fun a => Q (.ok a)) (fun e => Q (.error e)) p) : Tidy (Recorder.attempt r) Q E p :=
  ⟨fun base => Framed.attempt (h base), (Recorder.wp_attempt r).2 hQ⟩

theorem bracket {before after : Scanner → Scanner}
    (h : Tidy r (fun a q => Q a ({ q.1 with scanner := after q.1.scanner }, q.2))
      (fun e q => E e ({ q.1 with scanner := after q.1.scanner }, q.2))
      ({ p.1 with scanner := before p.1.scanner }, p.2)) :
    Tidy (Recorder.bracket before after r) Q E p := by
  constructor
  · intro base
    have hr := h.1 base
    unfold Framed at hr ⊢
    rw [Recorder.outcome_bracket, Recorder.outcome_bracket]
    exact congrArg (fun o => (o.1, { o.2.1 with scanner := after o.2.1.scanner }, o.2.2)) hr
  · exact (Recorder.wp_bracket _ _ _).2 h.2

end

end Tidy

/-! ## Faults -/

/-- What an error goes back to in a history. -/
inductive Fault (events : List (Event V)) : Cause → Prop
  | construct (expected found : String) : Fault events (.expectationFailure expected found)
  | action {rule : Rule V} {name : String} {f : Action V} {context : Context V} {m : Matched}
      {cause : Cause} (h : .acted rule name context m ∈ events) (hf : rule.action? name = some f)
      (hc : (f context m).1 = .fail cause) : Fault events cause
  | arguments {rule : Rule V} {call : Call} {context : Context V} (caller name : String)
      (expected actual : Nat) (h : .called rule call context ∈ events)
      (hl : (rule.argumentsOf call context).length ≠ call.arity) :
      Fault events (.argumentCountMismatch caller name expected actual)
  | value {rule : Rule V} {context : Context V} (name : String)
      (h : .matched rule context ∈ events) (hv : rule.hasValue = true) (hn : context.value = none) :
      Fault events (.missingValue name)

/-- A reason to stop that the history accounts for. -/
def Blamed (events : List (Event V)) : Stop → Prop
  | .error e => Fault events e.cause
  | .exhausted => True

/-! ## Steps of the engine -/

/-- The skip rule of the scanner is a rule of the table and takes no arguments. -/
def SkipReady (rules : Array (Rule V)) (s : State V) : Prop :=
  ∀ id, s.scanner.skipRule = some id → ∃ rule, rules[id]? = some rule ∧ rule.arity = 0

/-- The stack holds what it held at `s`, and the skip rule is the same. -/
structure Kept (s t : State V) : Prop where
  stack : t.stack = s.stack
  skipRule : t.scanner.skipRule = s.scanner.skipRule

theorem Kept.rfl {s : State V} : Kept s s := ⟨Eq.refl _, Eq.refl _⟩

theorem Kept.trans {s t u : State V} (h : Kept s t) (h' : Kept t u) : Kept s u :=
  ⟨h'.stack.trans h.stack, h'.skipRule.trans h.skipRule⟩

theorem SkipReady.kept {rules : Array (Rule V)} {s t : State V} (h : SkipReady rules s)
    (ht : t.scanner.skipRule = s.scanner.skipRule) : SkipReady rules t := by
  intro id hid
  exact h id (ht ▸ hid)

/-- The context is the same too. -/
structure Same (s t : State V) : Prop extends Kept s t where
  context : t.context = s.context

theorem Same.rfl {s : State V} : Same s s := ⟨.rfl, Eq.refl _⟩

theorem Same.trans {s t u : State V} (h : Same s t) (h' : Same t u) : Same s u :=
  ⟨h.toKept.trans h'.toKept, h'.context.trans h.context⟩

/-- A step that never stops and does nothing to the stack and the context. -/
def Quiet (m : Engine V α) : Prop := ∀ s, Tidy m (fun _ => Same s) (fun _ _ => False) s

namespace Quiet

theorem bind {m : Engine V α} {f : α → Engine V β} (h : Quiet m) (hf : ∀ a, Quiet (f a)) :
    Quiet (m >>= f) := by
  intro s
  refine (h s).bind fun a t ht => ?_
  exact (hf a t).mono (fun _ u hu => ht.trans hu) fun _ _ h => h

theorem pure (a : α) : Quiet (pure a : Engine V α) := fun _ => Tidy.pure .rfl

theorem here : Quiet (Engine.here : Engine V Cursor) := fun _ => Tidy.get (fun _ => rfl) (Tidy.pure .rfl)

theorem onScanner {f : Scanner → Scanner} (h : ∀ s, (f s).skipRule = s.skipRule) :
    Quiet (Engine.onScanner f : Engine V Unit) := fun _ => Tidy.onScanner ⟨⟨rfl, h _⟩, rfl⟩

theorem moveTo (c : Cursor) : Quiet (Engine.moveTo c : Engine V Unit) := onScanner fun _ => rfl

theorem hitFrom (start : Cursor) : Quiet (Engine.hitFrom start : Engine V Match) :=
  bind here fun _ => pure _

theorem missed (what : String) : Quiet (Engine.missed what : Engine V Match) := by
  refine bind (onScanner fun s => ?_) fun _ => pure _
  obtain ⟨_, _, h⟩ := s.note_eq what
  rw [h]

theorem matchOne (kind : CharKind) : Quiet (Engine.matchOne kind : Engine V Match) := by
  refine bind here fun c => ?_
  split
  · split
    · exact bind (moveTo _) fun _ => pure _
    · exact missed _
  · exact missed _

theorem matchText (literal : String) : Quiet (Engine.matchText literal : Engine V Match) := by
  refine bind here fun c => ?_
  split
  · exact bind (moveTo _) fun _ => pure _
  · exact missed _

theorem matchKeyword (word : String) : Quiet (Engine.matchKeyword word : Engine V Match) := by
  refine bind here fun c => ?_
  split
  · split
    · exact missed _
    · exact bind (moveTo _) fun _ => pure _
  · exact missed _

end Quiet

/-- What a rule leaves on the stack on which it found its arguments: a value if it matched and declares
one. -/
def Rule.Returns (rule : Rule V) (m : Match) (before after : Stack V) : Prop :=
  if m.isHit && rule.hasValue then ∃ v, after = before.push v else after = before

namespace Stack

theorem popN?_pushAll (s : Stack V) (args : List V) :
    (s.pushAll args).popN? args.length = some (args, s) := by
  simp [popN?, pushAll]

theorem pushAll_onto (s : Stack V) (args base : List V) :
    (s.pushAll args).onto base = (s.onto base).pushAll args := by
  simp [onto, pushAll]

theorem truncate_onto (s : Stack V) (depth : Nat) (base : List V) :
    (s.onto base).truncate (depth + base.length) = (s.truncate depth).onto base := by
  simp only [truncate, onto, List.length_append, Nat.add_sub_add_right]
  rw [List.drop_append_of_le_length (by omega)]

end Stack

theorem Rule.Returns.truncate {rule : Rule V} {m : Match} {before after : Stack V}
    (h : rule.Returns m before after) : after.truncate before.size = before := by
  unfold Rule.Returns at h
  split at h
  · obtain ⟨v, rfl⟩ := h
    simp [Stack.truncate, Stack.push, Stack.size]
  · rw [h]
    simp [Stack.truncate, Stack.size]

namespace Tidy

variable {rule callee : Rule V} {call : Call} {s : State V}

/-- An action stops a run only by failing the parse. -/
theorem runAction {action : String} {f : Action V} (hf : rule.action? action = some f) (start : Cursor)
    (length : Nat) :
    Tidy (Engine.runAction rule action start length) (fun _ => Kept s)
      (fun e _ => ∃ error, e = .error error ∧
        (f s.context (Engine.matchedSince start s.scanner)).1 = .fail error.cause) s := by
  refine Tidy.get (fun _ => rfl) ?_
  dsimp only
  rw [hf]
  dsimp only
  rcases f s.context (Engine.matchedSince start s.scanner) with ⟨verdict, context⟩
  refine Tidy.bind (Q := fun _ => Kept s) (Tidy.setContext ⟨rfl, rfl⟩) fun _ t ht => ?_
  cases verdict with
  | pass => exact Tidy.pure ht
  | reject => exact Tidy.bind (Q := fun _ => Kept s) (Tidy.onScanner (ht.trans ⟨rfl, rfl⟩)) fun _ _ h => Tidy.pure h
  | fail cause => exact ⟨fun _ => rfl, _, rfl, rfl⟩

/-- The arguments of a call go onto the stack, as many as the rule called takes. -/
theorem passArguments {target : RuleId} (ht : call.target = some target) :
    Tidy (Engine.passArguments rule call)
      (fun id t => id = target ∧ (rule.argumentsOf call s.context).length = call.arity ∧
        t = { s with stack := s.stack.pushAll (rule.argumentsOf call s.context) })
      (fun e _ => (rule.argumentsOf call s.context).length ≠ call.arity ∧
        ∃ error caller name expected actual, e = .error error ∧
          error.cause = .argumentCountMismatch caller name expected actual) s := by
  unfold Engine.passArguments
  rw [ht]
  by_cases hlen : (rule.argumentsOf call s.context).length = call.arity
  · constructor
    · intro base
      refine Framed.get ?_
      simp only [onto_context, onto_stack, ne_eq, hlen, not_true, if_false, ← Stack.pushAll_onto]
      rfl
    · rw [wp_bind, wp_get]
      simp only [ne_eq, hlen, not_true, if_false]
      exact ⟨rfl, trivial, rfl⟩
  · refine Tidy.get (fun base => ?_) ?_
    · simp only [onto_context, onto_scanner, ne_eq, hlen, not_false_eq_true, if_true]
    · dsimp only
      rw [if_pos hlen]
      exact ⟨fun _ => rfl, hlen, _, _, _, _, _, rfl, rfl⟩

theorem takeUpValue {stack : Stack V} (hs : callee.Returns (.hit 0) stack s.stack) :
    Tidy (Engine.takeUpValue rule call callee)
      (fun _ t => t.stack = stack ∧ t.scanner.skipRule = s.scanner.skipRule) (fun _ _ => False) s := by
  unfold Engine.takeUpValue
  cases hv : callee.hasValue with
  | false =>
    have hs : s.stack = stack := by simpa [Rule.Returns, Match.isHit, hv] using hs
    exact Tidy.pure ⟨hs, rfl⟩
  | true =>
    obtain ⟨v, hs⟩ : ∃ v, s.stack = stack.push v := by simpa [Rule.Returns, Match.isHit, hv] using hs
    rw [if_pos rfl]
    constructor
    · intro base
      refine Framed.get ?_
      rw [onto_stack, hs]
      rfl
    · rw [wp_bind, wp_get, hs]
      exact ⟨rfl, rfl⟩

theorem endCall {rules : Array (Rule V)} {target : RuleId} {m : Match} {stack : Stack V}
    (hc : rules[target]? = some callee) (hs : callee.Returns m stack s.stack) :
    Tidy (Engine.endCall rules rule call target m)
      (fun _ t => t.stack = stack ∧ t.scanner.skipRule = s.scanner.skipRule) (fun _ _ => False) s := by
  unfold Engine.endCall
  rw [hc]
  cases m with
  | miss => exact Tidy.pure ⟨hs, rfl⟩
  | hit n => exact Tidy.bind (Tidy.takeUpValue hs) fun _ t ht => Tidy.pure ht

theorem enter {args : List V} {below : Stack V} (hs : s.stack = below.pushAll args)
    (ha : args.length = rule.arity) :
    Tidy (Engine.enter rule)
      (fun _ t => t.stack = below ∧ t.context = .enter rule.attributes args s.scanner.offset ∧
        t.scanner.skipRule = s.scanner.skipRule) (fun _ _ => False) s := by
  have enters : ∀ below' : Stack V, (below'.pushAll args).popN? rule.arity = some (args, below') :=
    fun below' => ha ▸ below'.popN?_pushAll args
  constructor
  · intro base
    refine Framed.get ?_
    rw [onto_stack, hs, Stack.pushAll_onto, enters, enters]
    rfl
  · unfold Engine.enter
    rw [wp_bind, wp_get, hs, enters]
    obtain ⟨_, he⟩ := s.scanner.enterRule_eq rule.qualifiedName
    have hs : (s.scanner.enterRule rule.qualifiedName).skipRule = s.scanner.skipRule := by rw [he]
    exact ⟨rfl, rfl, hs⟩

theorem pushValue (start : Cursor) :
    Tidy (Engine.pushValue rule start)
      (fun _ t => rule.Returns (.hit 0) s.stack t.stack ∧ t.scanner.skipRule = s.scanner.skipRule)
      (fun e _ => rule.hasValue = true ∧ s.context.value = none ∧
        ∃ error name, e = .error error ∧ error.cause = .missingValue name) s := by
  unfold Engine.pushValue Rule.Returns
  cases hv : rule.hasValue with
  | false => exact Tidy.pure ⟨by simp, rfl⟩
  | true =>
    constructor
    · intro base
      refine Framed.get ?_
      rw [onto_context]
      cases s.context.value <;> rfl
    · rw [if_pos rfl, wp_bind, wp_get]
      cases hc : s.context.value with
      | none => exact ⟨rfl, rfl, _, _, rfl, rfl⟩
      | some v => exact ⟨⟨v, rfl⟩, rfl⟩

/-- A rule that ends leaves its value on the stack on which its pattern ended. -/
theorem leave (before : State V) (outcome : Except Stop Match) :
    Tidy (Engine.leave rule before outcome)
      (fun m t => outcome = .ok m ∧ rule.Returns m s.stack t.stack ∧
        t.scanner.skipRule = s.scanner.skipRule)
      (fun e _ => outcome = .error e ∨ (∃ n, outcome = .ok (.hit n)) ∧ rule.hasValue = true ∧
        s.context.value = none ∧ ∃ error name, e = .error error ∧ error.cause = .missingValue name)
      s := by
  unfold Engine.leave
  dsimp only
  have hl : ∀ matched, (s.scanner.leaveRule rule.qualifiedName before.scanner.cursor matched).skipRule =
      s.scanner.skipRule := by
    intro matched
    obtain ⟨_, hl⟩ := s.scanner.leaveRule_eq rule.qualifiedName before.scanner.cursor matched
    rw [hl]
  refine Tidy.bind (Q := fun _ t => Kept s t ∧ t.context = s.context)
    (Tidy.onScanner ⟨⟨rfl, hl _⟩, rfl⟩) fun _ t ⟨ht, hctx⟩ => ?_
  match outcome with
  | .error e => exact Tidy.throw (.inl rfl)
  | .ok .miss =>
    refine Tidy.bind (Q := fun _ => Kept s) (Tidy.setContext ⟨ht.stack, ht.skipRule⟩) fun _ u hu => ?_
    exact Tidy.pure ⟨rfl, hu.stack, hu.skipRule⟩
  | .ok (.hit n) =>
    have hpush : Tidy (Engine.pushValue rule before.scanner.cursor) _ _ t := Tidy.pushValue _
    rw [hctx] at hpush
    refine Tidy.bind (hpush.mono (fun _ _ h => h) fun e _ he => .inr ⟨⟨n, rfl⟩, he⟩) fun _ u hu => ?_
    refine Tidy.bind (Q := fun _ => Kept u) (Tidy.setContext ⟨rfl, rfl⟩) fun _ w hw => ?_
    refine Tidy.pure ⟨rfl, ?_, hw.skipRule.trans (hu.2.trans ht.skipRule)⟩
    rw [hw.stack, ← ht.stack]
    exact hu.1

end Tidy

/-- The end of a skip over other values, with the stack it goes back to over them too. -/
theorem Framed.endSkip (base : List V) (before : State V) (o : Except Stop Match) (t : State V) :
    Framed base (Engine.endSkip before o) (Engine.endSkip (onto before base) o) t := by
  have hsize : (onto before base).stack.size = before.stack.size + base.length := by
    simp [Stack.size, Stack.onto]
  unfold Engine.endSkip
  refine Framed.bind (E := fun _ _ => True) ?_ (wp_of_outcome (fun _ u _ => ?_) fun _ _ _ => trivial)
  · rw [hsize]
    unfold Framed
    rw [outcome_modify, outcome_modify, onto_stack, Stack.truncate_onto]
    rfl
  · cases o with
    | error e => rfl
    | ok m => cases m <;> rfl

/-! ## Balanced recorders -/

/-- A recorder that leaves the stack as it was and never looks below it; if it stops, its history says
why. -/
def Balanced (rules : Array (Rule V)) (r : Recorder V α) : Prop :=
  ∀ p, SkipReady rules p.1 →
    Tidy r (fun _ q => Kept p.1 q.1) (fun e q => Blamed q.2 e) p

/-- A recorder that stands for an invocation of the rule: it needs the arguments on the stack, takes them
off and leaves the value. -/
def Invokes (rules : Array (Rule V)) (rule : Rule V) (r : Recorder V Match) : Prop :=
  ∀ p args below, SkipReady rules p.1 → p.1.stack = Stack.pushAll below args →
    args.length = rule.arity →
    Tidy r (fun m q => rule.Returns m below q.1.stack ∧
      q.1.scanner.skipRule = p.1.scanner.skipRule) (fun e q => Blamed q.2 e) p

namespace Balanced

variable {rules : Array (Rule V)} {r : Recorder V α}

theorem bind {f : α → Recorder V β} (h : Balanced rules r) (hf : ∀ a, Balanced rules (f a)) :
    Balanced rules (r >>= f) := by
  intro p hp
  refine (h p hp).bind fun a q hq => ?_
  exact (hf a q (hp.kept hq.skipRule)).mono (fun _ u hu => hq.trans hu) fun _ _ h => h

theorem pure (a : α) : Balanced rules (pure a : Recorder V α) := fun _ _ => Tidy.pure .rfl

theorem throw {e : Stop} (he : ∀ events : List (Event V), Blamed events e) :
    Balanced rules (throw e : Recorder V α) := fun _ _ => Tidy.throw (he _)

theorem lift {m : Engine V α} (h : Quiet m) : Balanced rules (Recorder.lift m) :=
  fun p _ => Tidy.lift ((h p.1).mono (fun _ _ h => h.toKept) fun _ _ => False.elim)

theorem state {f : State V → Recorder V α} (h : ∀ s base, f (onto s base) = f s)
    (hf : ∀ s, Balanced rules (f s)) : Balanced rules (Recorder.state >>= f) :=
  fun p hp => Tidy.state (h p.1) (hf p.1 p hp)

theorem record (e : Event V) : Balanced rules (Recorder.record e) := fun _ _ => Tidy.record .rfl

theorem here : Balanced rules (Recorder.lift (Engine.here : Engine V Cursor)) := lift .here

theorem moveTo (c : Cursor) : Balanced rules (Recorder.lift (Engine.moveTo c : Engine V Unit)) :=
  lift (.moveTo c)

theorem hitFrom (start : Cursor) :
    Balanced rules (Recorder.lift (Engine.hitFrom start : Engine V Match)) := lift (.hitFrom start)

theorem terminal (p : Pattern) {m : Engine V Match} (h : Quiet m) :
    Balanced rules (Recorder.terminal p m) :=
  state (fun _ _ => rfl) fun _ => bind (lift h) fun _ => bind (record _) fun _ => pure _

theorem bracket {before after : Scanner → Scanner} (hb : ∀ s, (before s).skipRule = s.skipRule)
    (ha : ∀ s, (after s).skipRule = s.skipRule) (h : Balanced rules r) :
    Balanced rules (Recorder.bracket before after r) := by
  intro p hp
  refine Tidy.bracket ((h _ (hp.kept (hb p.1.scanner))).mono (fun a q hq => ?_) fun _ _ h => h)
  exact ⟨hq.stack, (ha q.1.scanner).trans (hq.skipRule.trans (hb p.1.scanner))⟩

theorem repeatBody {skip : Recorder V Unit} {body : Recorder V Match} (hs : Balanced rules skip)
    (hb : Balanced rules body) (fuel : Nat) (first : Bool) :
    Balanced rules (Recorder.repeatBody skip body fuel first) := by
  induction fuel generalizing first with
  | zero => exact throw fun _ => trivial
  | succ fuel ih =>
    refine state (fun _ _ => rfl) fun s => ?_
    split
    · exact pure _
    cases first with
    | true =>
      refine bind hb fun m => ?_
      cases m with
      | miss => exact moveTo _
      | hit n => exact ih false
    | false =>
      refine bind hs fun _ => bind hb fun m => ?_
      cases m with
      | miss => exact moveTo _
      | hit n => exact ih false

theorem repeatItems {skip : Recorder V Unit} {separator item : Recorder V Match}
    (hs : Balanced rules skip) (hp : Balanced rules separator) (hi : Balanced rules item) (fuel : Nat) :
    Balanced rules (Recorder.repeatItems skip separator item fuel) := by
  induction fuel with
  | zero => exact throw fun _ => trivial
  | succ fuel ih =>
    refine bind here fun save => bind hs fun _ => bind hp fun m => ?_
    cases m with
    | miss => exact moveTo _
    | hit n =>
      refine bind hs fun _ => bind hi fun m => ?_
      cases m with
      | miss => exact moveTo _
      | hit n => exact ih

theorem runAction {rule : Rule V} {action : String} {f : Action V} (hf : rule.action? action = some f)
    (start : Cursor) (length : Nat) :
    Balanced rules (Recorder.runAction rule action start length) := by
  intro p hp
  refine Tidy.state (fun _ => rfl) ?_
  refine Tidy.bind (Q := fun _ q => q = (p.1, .acted rule action p.1.context
    (Engine.matchedSince start p.1.scanner) :: p.2)) (Tidy.record rfl) fun _ q hq => ?_
  subst hq
  refine Tidy.lift ((Tidy.runAction hf start length).mono (fun _ _ h => h) fun e t ⟨error, he, hc⟩ => ?_)
  subst he
  exact .action List.mem_cons_self hf hc

/-- The skip rule takes no arguments, so all of the stack is below it. -/
theorem skip {invoke : RuleId → Recorder V Match}
    (hk : ∀ id rule, rules[id]? = some rule → Invokes rules rule (invoke id)) :
    Balanced rules (Recorder.skip invoke) := by
  intro p hp
  unfold Recorder.skip
  cases hid : p.1.scanner.skipRule with
  | none =>
    refine Tidy.state (fun base => ?_) ?_
    · rw [onto_scanner, hid]
    · rw [hid]
      exact Tidy.pure .rfl
  | some id =>
    by_cases hc : p.1.scanner.canSkip = true
    · obtain ⟨rule, hrule, ha⟩ := hp id hid
      let events := .skipped p.1.scanner.offset :: p.2
      have hrun : Tidy
          (Recorder.bracket (Scanner.setSkipping true) (Scanner.setSkipping false) (invoke id))
          (fun m q => rule.Returns m p.1.stack q.1.stack ∧
            q.1.scanner.skipRule = p.1.scanner.skipRule)
          (fun e q => Blamed q.2 e) (p.1, events) :=
        Tidy.bracket (hk id rule hrule _ [] p.1.stack (hp.kept rfl) rfl ha.symm)
      constructor
      · intro base
        refine Framed.state ?_
        simp only [onto_scanner, hid, hc, if_true]
        refine Framed.bind (E := fun _ _ => True) rfl ?_
        rw [Recorder.wp_record]
        refine (Framed.attempt (hrun.1 base)).bind (E := fun _ _ => True) ?_
        exact wp_of_outcome (fun o q _ => Framed.lift (Framed.endSkip base p.1 o q.1)) fun _ _ _ => trivial
      · simp only [wp_bind, Recorder.wp_state, hid, hc, if_true, Recorder.wp_record,
          Recorder.wp_attempt, Recorder.wp_lift]
        refine wp_mono hrun.2 (fun m q ⟨hq, hsk⟩ => ?_) fun e q he => he
        have hstack := hq.truncate
        cases m with
        | miss => exact ⟨hstack, hsk⟩
        | hit n => exact ⟨hstack, hsk⟩
    · refine Tidy.state (fun base => ?_) ?_
      · simp only [onto_scanner, hid, hc]
        rfl
      · rw [hid]
        simp only [hc]
        exact Tidy.pure .rfl

theorem performCall {invoke : RuleId → Recorder V Match}
    (hk : ∀ id rule, rules[id]? = some rule → Invokes rules rule (invoke id)) (rule : Rule V)
    {call : Call} (hc : (Pattern.call call).Linked rules rule) :
    Balanced rules (Recorder.performCall rules invoke rule call) := by
  intro p hp
  obtain ⟨id, callee, hid, hcallee, harity⟩ := hc
  refine Tidy.state (fun _ => rfl) ?_
  refine Tidy.bind (Q := fun _ q => q = (p.1, .called rule call p.1.context :: p.2))
    (Tidy.record rfl) fun _ q hq => ?_
  subst hq
  have hpass : Tidy (Recorder.lift (Engine.passArguments rule call))
      (fun target q => target = id ∧ (rule.argumentsOf call p.1.context).length = call.arity ∧
        q.1 = { p.1 with stack := p.1.stack.pushAll (rule.argumentsOf call p.1.context) })
      (fun e q => Blamed q.2 e) (p.1, .called rule call p.1.context :: p.2) := by
    refine Tidy.lift ((Tidy.passArguments hid).mono (fun _ _ h => h) ?_)
    rintro _ _ ⟨hlen, error, caller, name, expected, actual, rfl, hcause⟩
    show Fault _ error.cause
    rw [hcause]
    exact .arguments caller name expected actual List.mem_cons_self hlen
  refine Tidy.bind hpass fun target q ⟨htarget, hlen, hq⟩ => ?_
  subst htarget
  have hsk : q.1.scanner.skipRule = p.1.scanner.skipRule := by rw [hq]
  refine Tidy.bind (hk target callee hcallee q _ p.1.stack (hp.kept hsk) (by rw [hq])
    (hlen.trans harity.symm)) fun m u ⟨hu, hsk'⟩ => ?_
  refine Tidy.lift ((Tidy.endCall hcallee hu).mono (fun _ w ⟨hw, hsk''⟩ => ?_) fun _ _ => False.elim)
  exact ⟨hw, hsk''.trans (hsk'.trans hsk)⟩

theorem run (fuel : Nat) {invoke : RuleId → Recorder V Match}
    (hk : ∀ id rule, rules[id]? = some rule → Invokes rules rule (invoke id))
    (rule : Rule V) {p : Pattern} (hp : p.Linked rules rule) :
    Balanced rules (p.record rules fuel invoke rule) := by
  have hs := skip hk
  induction p with
  | empty => exact pure _
  | one kind => exact terminal _ (.matchOne kind)
  | text literal => exact terminal _ (.matchText literal)
  | keyword word => exact terminal _ (.matchKeyword word)
  | keywords selector words ih =>
    refine bind here fun start => bind (ih hp) fun m => bind here fun stop => ?_
    split
    · exact pure m
    · exact bind (moveTo _) fun _ => terminal _ (.missed _)
  | seq first second ih₁ ih₂ =>
    refine bind here fun start => bind (ih₁ hp.1) fun m => ?_
    cases m with
    | miss => exact pure _
    | hit n =>
      refine bind here fun middle => bind hs fun _ => bind (ih₂ hp.2) fun m => ?_
      match m with
      | .miss => exact bind (moveTo _) fun _ => pure _
      | .hit 0 => exact bind (moveTo _) fun _ => hitFrom _
      | .hit (n + 1) => exact hitFrom _
  | alt first second ih₁ ih₂ =>
    refine bind here fun start => bind (ih₁ hp.1) fun m => ?_
    cases m with
    | hit n => exact pure _
    | miss => exact bind (moveTo _) fun _ => ih₂ hp.2
  | diff subject excluded ih₁ ih₂ =>
    refine bind here fun start => bind (ih₁ hp.1) fun m => ?_
    cases m with
    | miss => exact bind (moveTo _) fun _ => pure _
    | hit n =>
      refine bind here fun after => bind (moveTo _) fun _ => bind (ih₂ hp.2) fun m => ?_
      split <;> exact bind (moveTo _) fun _ => pure _
  | list item separator ih₁ ih₂ =>
    refine bind here fun start => bind (ih₁ hp.1) fun m => ?_
    cases m with
    | miss => exact pure _
    | hit n => exact bind (repeatItems hs (ih₂ hp.2) (ih₁ hp.1) fuel) fun _ => hitFrom _
  | opt subject ih =>
    refine bind here fun start => bind (ih hp) fun m => ?_
    cases m with
    | hit n => exact pure _
    | miss => exact bind (moveTo _) fun _ => pure _
  | many subject ih =>
    exact bind here fun start => bind (repeatBody hs (ih hp) fuel true) fun _ => hitFrom _
  | many1 subject ih =>
    refine bind here fun start => bind (ih hp) fun m => ?_
    cases m with
    | miss => exact pure _
    | hit n => exact bind (repeatBody hs (ih hp) fuel false) fun _ => hitFrom _
  | expect subject ih =>
    refine bind (ih hp) fun m => ?_
    cases m with
    | hit n => exact pure _
    | miss => exact state (fun _ _ => rfl) fun s => throw fun _ => .construct _ _
  | token subject ih => exact bracket (fun _ => rfl) (fun _ => rfl) (ih hp)
  | lookahead subject ih =>
    exact bind here fun start => bind (ih hp) fun m => bind (moveTo _) fun _ => pure _
  | notAhead subject ih =>
    exact bind here fun start => bind (ih hp) fun m => bind (moveTo _) fun _ => pure _
  | act action subject ih =>
    refine bind here fun start => bind (ih hp.2) fun m => ?_
    cases m with
    | miss => exact pure _
    | hit n =>
      obtain ⟨f, hf⟩ := hp.1
      exact runAction hf start n
  | call c => exact performCall hk rule hp

end Balanced

namespace Invokes

variable {rules : Array (Rule V)}

theorem matchRule {rule : Rule V} {body : Recorder V Match} (hb : Balanced rules body) :
    Invokes rules rule (Recorder.matchRule rule body) := by
  intro p args below hp hs ha
  refine Tidy.state (fun _ => rfl) ?_
  have henter : Tidy (Recorder.lift (Engine.enter rule))
      (fun _ q => q.1.stack = below ∧ q.1.scanner.skipRule = p.1.scanner.skipRule)
      (fun e q => Blamed q.2 e) p :=
    Tidy.lift ((Tidy.enter hs ha).mono (fun _ _ h => ⟨h.1, h.2.2⟩) fun _ _ => False.elim)
  refine Tidy.bind henter fun _ q ⟨hq, hsk⟩ => ?_
  have hbody := hb q (hp.kept hsk)
  have hattempt : Tidy (Recorder.attempt body)
      (fun o t => (∀ m, o = .ok m → Kept q.1 t.1) ∧ ∀ e, o = .error e → Blamed t.2 e)
      (fun e t => Blamed t.2 e) q := by
    refine Tidy.attempt hbody.1 (wp_mono hbody.2 (fun m t ht => ?_) fun e t ht => ?_)
    · exact ⟨fun _ _ => ht, nofun⟩
    · exact ⟨nofun, by rintro _ ⟨⟩; exact ht⟩
  refine Tidy.bind hattempt fun o t ⟨hkept, hblamed⟩ => ?_
  -- A match without its value is the fault of the match that was just recorded.
  have hleave : ∀ events, ((∃ n, o = .ok (.hit n)) → .matched rule t.1.context ∈ events) →
      (∀ e, o = .error e → Blamed events e) →
      Tidy (Recorder.lift (Engine.leave rule p.1 o))
        (fun m u => rule.Returns m below u.1.stack ∧ u.1.scanner.skipRule = p.1.scanner.skipRule)
        (fun e u => Blamed u.2 e) (t.1, events) := by
    intro events hmatched herror
    refine Tidy.lift ((Tidy.leave p.1 o).mono (fun m u ⟨hm, hu, hsku⟩ => ?_) ?_)
    · have hk := hkept m hm
      rw [hk.stack, hq] at hu
      exact ⟨hu, hsku.trans (hk.skipRule.trans hsk)⟩
    · rintro e _ (he | ⟨hhit, hv, hn, error, name, rfl, hcause⟩)
      · exact herror e he
      · show Fault _ error.cause
        rw [hcause]
        exact .value name (hmatched hhit) hv hn
  refine Tidy.state (fun _ => rfl) ?_
  rcases o with e | n | _
  · exact hleave t.2 (fun ⟨_, h⟩ => nomatch h) hblamed
  · refine Tidy.bind (Q := fun _ u => u = (t.1, .matched rule t.1.context :: t.2)) (Tidy.record rfl) ?_
    rintro _ _ rfl
    exact hleave _ (fun _ => List.mem_cons_self) nofun
  · exact hleave t.2 (fun ⟨_, h⟩ => nomatch h) hblamed

theorem invoke (hr : ∀ (id : RuleId) rule, rules[id]? = some rule → rule.definition.Linked rules rule)
    (fuel : Nat) (id : RuleId) (rule : Rule V) (hid : rules[id]? = some rule) :
    Invokes rules rule (Recorder.invoke rules fuel id) := by
  induction fuel generalizing id rule with
  | zero => exact fun p _ _ _ _ _ => Tidy.throw trivial
  | succ fuel ih =>
    unfold Recorder.invoke
    rw [hid]
    exact matchRule (Balanced.run fuel ih rule (hr id rule hid))

end Invokes

end PegFront
