import PegFront.Proofs.Balance

/-!
# Independence of sessions

A parse runs on the stack of its session, above the values that are there. It leaves them as they were,
whether it ends or stops, and it answers as it would on a fresh session; hence so does each of several
parses on one session, whatever is pushed between them. If it stops with an error, its history tells what
the error goes back to.
-/

namespace PegFront

variable {V α : Type}

open Stacked (onto)

/-! ## Erasure of frames -/

namespace Erases

variable {r : Recorder V α} {m : Engine V α} {s : State V} {events : List (Event V)}

theorem framed {base : List V} (h : Erases r m) (hr : Framed base r r (s, events)) :
    Framed base m m s := by
  obtain ⟨events₁, h₁⟩ := h s events
  obtain ⟨events₂, h₂⟩ := h (onto s base) events
  unfold Framed at hr ⊢
  rw [h₁] at hr
  have hr : ((outcome m (onto s base)).1, (outcome m (onto s base)).2, events₂) = _ := h₂.symm.trans hr
  simp only [Prod.mk.injEq] at hr
  exact Prod.ext hr.1 (congrArg Prod.fst hr.2)

end Erases

/-! ## The start rule -/

theorem Rule.Returns.onto {rule : Rule V} {m : Match} {before after : Stack V}
    (h : rule.Returns m before after) (base : List V) :
    rule.Returns m (before.onto base) (after.onto base) := by
  unfold Rule.Returns at h ⊢
  split
  · next hv =>
    rw [if_pos hv] at h
    obtain ⟨v, rfl⟩ := h
    exact ⟨v, rfl⟩
  · next hv =>
    rw [if_neg hv] at h
    rw [h]

/-- A parse ends with the value its start rule left, unless some of the input is left too. -/
theorem outcome_endStart {rule : Rule V} {m : Match} {s : State V} {below : Stack V}
    (hs : rule.Returns m below s.stack) :
    outcome (Engine.endStart rule below.size m) s =
      if m.isMiss || !s.scanner.atEnd then (.error (.error (Engine.incomplete s.scanner rule)), s)
      else (.ok (if rule.hasValue then s.stack.top? else none), { s with stack := below }) := by
  unfold Engine.endStart
  rw [outcome_bind, outcome_get]
  dsimp only
  by_cases hc : (m.isMiss || !s.scanner.atEnd) = true
  · rw [if_pos hc, if_pos hc]
    rfl
  rw [if_neg hc, if_neg hc]
  cases hv : rule.hasValue with
  | false =>
    have hs : s.stack = below := by simpa [Rule.Returns, hv] using hs
    rw [← hs]
    rfl
  | true =>
    cases m with
    | miss => simp [Match.isMiss] at hc
    | hit n =>
      obtain ⟨v, hs⟩ : ∃ v, s.stack = below.push v := by
        simpa [Rule.Returns, Match.isHit, hv] using hs
      have hpop : s.stack.pop? = some (v, below) := by rw [hs]; rfl
      have htop : s.stack.top? = some v := by rw [hs]; rfl
      rw [hpop, htop]
      simp only [Bool.not_true, Bool.false_eq_true, if_false, if_true]
      rfl

theorem Framed.endStart {rule : Rule V} {m : Match} {s : State V} (hs : rule.Returns m .empty s.stack)
    (base : List V) :
    Framed base (Engine.endStart rule 0 m) (Engine.endStart rule base.length m) s := by
  have hend := outcome_endStart hs
  have hend' := outcome_endStart (s := onto s base) (hs.onto base)
  rw [show (Stack.empty : Stack V).size = 0 from rfl] at hend
  rw [show (Stack.empty.onto base : Stack V).size = base.length from rfl] at hend'
  unfold Framed
  rw [hend, hend', onto_scanner, onto_stack]
  by_cases hc : (m.isMiss || !s.scanner.atEnd) = true
  · rw [if_pos hc, if_pos hc]
  rw [if_neg hc, if_neg hc]
  cases hv : rule.hasValue with
  | false => rfl
  | true =>
    cases m with
    | miss => simp [Match.isMiss] at hc
    | hit n =>
      obtain ⟨v, hs⟩ : ∃ v, s.stack = Stack.empty.push v := by
        simpa [Rule.Returns, Match.isHit, hv] using hs
      rw [hs]
      rfl

section
variable {rules : Array (Rule V)} {k : RuleId → Recorder V Match} {k' : RuleId → Engine V Match}

/-- The start rule takes its arguments off the stack and leaves its value. -/
theorem Invokes.matchStart (hk : ∀ id rule, rules[id]? = some rule → Invokes rules rule (k id))
    {id : RuleId} {rule : Rule V} (hid : rules[id]? = some rule) {p : State V × List (Event V)}
    {args : List V} {below : Stack V} (hp : SkipReady rules p.1)
    (hstack : p.1.stack = below.pushAll args) (ha : args.length = rule.arity) :
    Tidy (Recorder.matchStart k id) (fun m q => rule.Returns m below q.1.stack)
      (fun e q => Blamed q.2 e) p := by
  refine Tidy.bind (Balanced.skip hk p hp) fun _ q hq => ?_
  have hinvoke := hk id rule hid q args below (hp.kept hq.skipRule) (hq.stack.trans hstack) ha
  refine Tidy.bind hinvoke fun m u ⟨hu, hsk⟩ => ?_
  cases m with
  | miss => exact Tidy.pure hu
  | hit n =>
    refine Tidy.bind (Balanced.skip hk u (hp.kept (hsk.trans hq.skipRule))) fun _ w hw => ?_
    exact Tidy.pure (hw.stack ▸ hu)

/-- Run on its arguments alone the start rule leaves nothing, and over other values it does the same. -/
theorem Framed.runStart (hk : ∀ id rule, rules[id]? = some rule → Invokes rules rule (k id))
    (he : ∀ id, Erases (k id) (k' id)) {id : RuleId} {rule : Rule V} (hid : rules[id]? = some rule)
    {s : State V} {args : List V} (hs : SkipReady rules s) (hstack : s.stack = Stack.empty.pushAll args)
    (ha : args.length = rule.arity) (base : List V) :
    Framed base (Engine.runStart k' id rule 0) (Engine.runStart k' id rule base.length) s ∧
      wp (Engine.runStart k' id rule 0) (fun _ t => t.stack = .empty) (fun _ _ => True) s := by
  have h := Invokes.matchStart hk hid (p := (s, [])) hs hstack ha
  have herase := Erases.matchStart he id
  have hm : wp (Engine.matchStart k' id) (fun m t => rule.Returns m .empty t.stack) (fun _ _ => True) s :=
    herase.wp (wp_mono h.2 (fun _ _ h => h) fun _ _ _ => trivial)
  constructor
  · refine (herase.framed (h.1 base)).bind (wp_mono hm (fun m t ht => ?_) fun _ _ h => h)
    exact Framed.endStart ht base
  · refine wp_then hm fun m t ht => wp_of_outcome (fun v u ho => ?_) fun _ _ _ => trivial
    have hend := outcome_endStart ht
    rw [show (Stack.empty : Stack V).size = 0 from rfl, ho] at hend
    split at hend
    · nomatch hend
    · cases hend
      rfl

end

/-! ## Parses -/

namespace Domain

variable {d : Domain V}

theorem Linked.skipReady (hd : d.Linked) {g : Grammar} (hg : g ∈ d.grammars) (source : String)
    (options : Options) (stack : Stack V) :
    SkipReady d.rules (startState g source options stack) := by
  intro id hid
  obtain ⟨rule, hrule, ha, -⟩ := hd.skip g hg id hid
  exact ⟨rule, hrule, ha⟩

theorem startState_pushAll (g : Grammar) (source : String) (options : Options) (stack : Stack V)
    (args : List V) :
    startState g source options (stack.pushAll args) =
      onto (startState g source options (Stack.empty.pushAll args)) stack.values := by
  simp [startState, onto, Stack.onto, Stack.pushAll, Stack.empty]

/-- A parse with the right number of arguments is a run of the start rule. -/
theorem parseIn_eq {g : Grammar} {start : RuleId} {rule : Rule V} (hstart : g.start = some start)
    (hrule : d.rules[start]? = some rule) (source : String) (options : Options) {args : List V}
    (ha : args.length = rule.arity) (session : Session V) :
    d.parseIn g source options args session =
      let run := outcome
        (Engine.runStart (Engine.invoke d.rules (d.fuelOf source)) start rule session.stack.size)
        (startState g source options (session.stack.pushAll args))
      (run.1, {
        stack := match run.1 with
          | .ok _ => run.2.stack
          | .error _ => run.2.stack.truncate session.stack.size
        trace := run.2.scanner.trace }) := by
  unfold Domain.parseIn
  have hbind : g.start.bind d.rule? = some rule := by rw [hstart]; exact hrule
  rw [hbind, hstart]
  dsimp only
  rw [if_neg (not_not_intro ha)]
  rfl

/-- A parse leaves the stack of the session as it was and answers as on a fresh session. -/
theorem Linked.parseIn (hd : d.Linked) {g : Grammar} (hg : g ∈ d.grammars) (source : String)
    (options : Options) (args : List V) (session : Session V) :
    (d.parseIn g source options args session).1 = (d.parseIn g source options args {}).1 ∧
      (d.parseIn g source options args session).2.stack = session.stack := by
  cases hstart : g.start with
  | none =>
    simp only [Domain.parseIn, hstart]
    exact ⟨trivial, trivial⟩
  | some start =>
    obtain ⟨rule, hrule⟩ := hd.start g hg start hstart
    by_cases ha : args.length = rule.arity
    · let fresh := startState g source options (Stack.empty.pushAll args)
      have hready : SkipReady d.rules fresh := hd.skipReady hg source options _
      obtain ⟨hframe, hkeep⟩ := Framed.runStart (Invokes.invoke hd.rules (d.fuelOf source))
        (Erases.invoke d.rules (d.fuelOf source)) hrule hready rfl ha session.stack.values
      rw [parseIn_eq hstart hrule source options ha, parseIn_eq hstart hrule source options ha,
        startState_pushAll g source options session.stack args]
      dsimp only
      have hout : outcome
          (Engine.runStart (Engine.invoke d.rules (d.fuelOf source)) start rule session.stack.size)
          (onto fresh session.stack.values) = _ := hframe
      rw [hout]
      refine ⟨rfl, ?_⟩
      unfold wp at hkeep
      generalize outcome (Engine.runStart (Engine.invoke d.rules (d.fuelOf source)) start rule 0) fresh
        = run at hkeep ⊢
      rcases run with ⟨e | v, t⟩
      · -- Whatever was left above the values of the session is dropped.
        show (t.stack.onto session.stack.values).truncate session.stack.size = session.stack
        simp [Stack.truncate, Stack.onto, Stack.size]
      · show t.stack.onto session.stack.values = session.stack
        rw [show t.stack = .empty from hkeep]
        rfl
    · have hbind : (some start).bind d.rule? = some rule := hrule
      simp only [Domain.parseIn, hstart, hbind, ne_eq, ha, not_false_eq_true, if_true]
      exact ⟨trivial, trivial⟩

end Domain

/-! ## Moves on a session -/

/-- What a caller does with a session. -/
inductive Move (V : Type) where
  | push (v : V)
  | parse (grammar : Grammar) (source : String) (options : Options) (args : List V)

namespace Move

/-- The values pushed, in order. -/
def pushed : List (Move V) → List V
  | [] => []
  | .push v :: moves => v :: pushed moves
  | .parse .. :: moves => pushed moves

/-- The answers of the parses, each alone on a fresh session. -/
def answers (d : Domain V) : List (Move V) → List (Except Stop (Option V))
  | [] => []
  | .push _ :: moves => answers d moves
  | .parse g source options args :: moves =>
    (d.parseIn g source options args {}).1 :: answers d moves

end Move

/-- Makes moves on one session, one after the other. -/
def Domain.play (d : Domain V) (session : Session V) :
    List (Move V) → List (Except Stop (Option V)) × Session V
  | [] => ([], session)
  | .push v :: moves => d.play { session with stack := session.stack.push v } moves
  | .parse g source options args :: moves =>
    let (answer, session) := d.parseIn g source options args session
    let (answers, session) := d.play session moves
    (answer :: answers, session)

theorem Domain.Linked.play {d : Domain V} (hd : d.Linked) (session : Session V) {moves : List (Move V)}
    (hm : ∀ g source options args, Move.parse g source options args ∈ moves → g ∈ d.grammars) :
    (d.play session moves).1 = Move.answers d moves ∧
      (d.play session moves).2.stack = session.stack.pushAll (Move.pushed moves) := by
  induction moves generalizing session with
  | nil => exact ⟨rfl, rfl⟩
  | cons move moves ih =>
    have ih := fun session => ih session fun g source options args h =>
      hm g source options args (List.mem_cons_of_mem _ h)
    cases move with
    | push v =>
      obtain ⟨ha, hs⟩ := ih { session with stack := session.stack.push v }
      refine ⟨ha, hs.trans ?_⟩
      simp [Stack.pushAll, Stack.push, Move.pushed]
    | parse g source options args =>
      have hg := hm g source options args List.mem_cons_self
      obtain ⟨ha, hs⟩ := hd.parseIn hg source options args session
      obtain ⟨hrest, hstack⟩ := ih (d.parseIn g source options args session).2
      rw [hs] at hstack
      exact ⟨congrArg₂ List.cons ha hrest, hstack⟩

/-- Parses leave the values of a session alone and are not affected by them, and so do any number of
parses with pushes in between: the stack holds what was pushed, and each parse answers as if it were run
alone. -/
theorem session_law {r : Registry V} {d : Domain V} (h : r.link = .ok d) :
    (∀ g ∈ d.grammars, ∀ source options args session,
      (d.parseIn g source options args session).1 = (d.parseIn g source options args {}).1 ∧
        (d.parseIn g source options args session).2.stack = session.stack) ∧
    ∀ session (moves : List (Move V)),
      (∀ g source options args, Move.parse g source options args ∈ moves → g ∈ d.grammars) →
      (d.play session moves).1 = Move.answers d moves ∧
        (d.play session moves).2.stack = session.stack.pushAll (Move.pushed moves) :=
  ⟨fun _ hg source options args session => (Registry.linked h).parseIn hg source options args session,
    fun session _ hm => (Registry.linked h).play session hm⟩

/-- The law for a rule that calls itself with an argument. -/
theorem session_law_nested :
    let rule : Rule Nat := {
      name := "S"
      definition :=
        .seq (.act "keep" (.text "x")) (.opt (.seq (.text "+") (.callAs "rest" "S" 1)))
      attributes := [⟨"depth", "Nat"⟩]
      valueType := some "Nat"
      actions := [("keep", fun ctx _ => (.pass, ctx.setValue ((ctx.get? "depth").getD 0)))]
      preCalls := [("rest", fun ctx => [(ctx.get? "depth").getD 0 + 1])]
      postCalls := [("rest", fun ctx v => ctx.setValue v)] }
    let r : Registry Nat :=
      { grammars := [{ name := "G", rules := [rule], start := some "S" }], index := [("G", 0)] }
    ∃ d g, r.link = .ok d ∧ d.grammars = [g] ∧
      (d.parseIn g "x+x" {} [3] {}).1.toOption = some (some 4) ∧
      ∀ session,
        let moves := [.push 7, .parse g "x+x" {} [3], .push 8, .parse g "x+" {} [3]]
        (d.play session moves).1 = Move.answers d moves ∧
          (d.play session moves).2.stack = session.stack.pushAll [7, 8] := by
  intro rule r
  refine ⟨_, _, rfl, rfl, by decide +kernel, fun session => ?_⟩
  refine (session_law (r := r) rfl).2 session _ fun g source options args h => ?_
  simp only [List.mem_cons, Move.parse.injEq, List.not_mem_nil, reduceCtorEq, false_or, or_false] at h
  rcases h with ⟨rfl, _⟩ | ⟨rfl, _⟩ <;> exact List.mem_cons_self

end PegFront
