import PegFront.Proofs.Sessions

/-!
# What a parse can fail with

Linking rules out three errors for good: a call without a rule, an action without a function, and a rule
that finds too few arguments. The two others that blame the grammar go back to what a hook or an action
did in the run: a call was passed another number of values than it says, or a rule that declares a value
matched without one. Actions that fail the parse may report anything.
-/

namespace PegFront

variable {V : Type} {d : Domain V}

/-- The errors that linking rules out. -/
def Cause.isUnlinked : Cause → Bool
  | .unresolvedRule .. | .unboundAction .. | .stackUnderflow .. => true
  | _ => false

/-- A parse fails in the run of its start rule, or because that run left some of the input. -/
theorem Domain.Linked.parseIn_error (hd : d.Linked) {g : Grammar} (hg : g ∈ d.grammars) {start : RuleId}
    {rule : Rule V} (hstart : g.start = some start) (hrule : d.rules[start]? = some rule)
    (source : String) (options : Options) {args : List V} (ha : args.length = rule.arity)
    (session : Session V) {e : ParseError}
    (he : (d.parseIn g source options args session).1 = .error (.error e)) :
    let run := outcome (Recorder.matchStart (Recorder.invoke d.rules (d.fuelOf source)) start)
      (startState g source options (Stack.empty.pushAll args), [])
    let events := d.history g source options args
    (∃ t, run = (.error (.error e), t, events)) ∨
      ∃ m t, run = (.ok m, t, events) ∧ (m.isMiss || !t.scanner.atEnd) = true ∧
        e = Engine.incomplete t.scanner rule := by
  intro run events
  rw [(hd.parseIn hg source options args session).1,
    parseIn_eq hstart hrule source options ha] at he
  let fresh := startState g source options (Stack.empty.pushAll args)
  have hrun : Tidy _ _ _ (fresh, []) :=
    Invokes.matchStart (Invokes.invoke hd.rules (d.fuelOf source)) hrule
      (hd.skipReady hg source options _) rfl ha
  have hhist : run = _ := d.outcome_history hstart source options args
  rcases hm : outcome (Engine.matchStart (Engine.invoke d.rules (d.fuelOf source)) start) fresh with
    ⟨stop | m, t⟩
  · have hstop : (.error stop : Except Stop (Option V)) = .error (.error e) := by
      have he := he
      unfold Engine.runStart at he
      rw [outcome_bind, show ({} : Session V).stack = .empty from rfl, hm] at he
      exact he
    rw [hm] at hhist
    cases hstop
    exact .inl ⟨t, hhist⟩
  · rw [hm] at hhist
    have hreturns : rule.Returns m .empty t.stack := by
      have := wp_ok hrun.2 hhist
      exact this
    unfold Engine.runStart at he
    rw [outcome_bind, show ({} : Session V).stack = .empty from rfl, hm] at he
    dsimp only at he
    rw [outcome_endStart hreturns] at he
    split at he
    · next hleft =>
      cases he
      exact .inr ⟨m, t, hhist, hleft, rfl⟩
    · nomatch he

/-- The history of a parse accounts for its error. -/
theorem Domain.Linked.parseIn_fault (hd : d.Linked) {g : Grammar} (hg : g ∈ d.grammars) {start : RuleId}
    {rule : Rule V} (hstart : g.start = some start) (hrule : d.rules[start]? = some rule)
    (source : String) (options : Options) {args : List V} (ha : args.length = rule.arity)
    (session : Session V) {e : ParseError}
    (he : (d.parseIn g source options args session).1 = .error (.error e)) :
    Fault (d.history g source options args) e.cause := by
  obtain ⟨t, hrun⟩ | ⟨m, t, -, -, rfl⟩ :=
    hd.parseIn_error hg hstart hrule source options ha session he
  · have htidy : Tidy _ _ _ (startState g source options (Stack.empty.pushAll args), []) :=
      Invokes.matchStart (Invokes.invoke hd.rules (d.fuelOf source)) hrule
        (hd.skipReady hg source options _) rfl ha
    exact wp_error htidy.2 hrun
  · exact .construct _ _

/-- No error of a linked domain is one that linking rules out, and those that blame the grammar name a
call that was passed the wrong number of values or a rule that matched without its value; all of this
except for errors that an action reports. -/
theorem link_soundness {r : Registry V} (h : r.link = .ok d) {g : Grammar} (hg : g ∈ d.grammars)
    (source : String) (options : Options) (args : List V) (session : Session V) (e : ParseError)
    (he : (d.parseIn g source options args session).1 = .error (.error e)) :
    (∃ rule name f context m, .acted rule name context m ∈ d.history g source options args ∧
      rule.action? name = some f ∧ (f context m).1 = .fail e.cause) ∨
    e.cause.isUnlinked = false ∧
      ((∀ id rule, g.start = some id → d.rules[id]? = some rule → args.length = rule.arity) →
        (∀ caller name expected actual, e.cause = .argumentCountMismatch caller name expected actual →
          ∃ rule call context, .called rule call context ∈ d.history g source options args ∧
            (rule.argumentsOf call context).length ≠ call.arity) ∧
        ∀ name, e.cause = .missingValue name →
          ∃ rule context, .matched rule context ∈ d.history g source options args ∧
            rule.hasValue = true ∧ context.value = none) := by
  have hd := Registry.linked h
  cases hstart : g.start with
  | none =>
    right
    unfold Domain.parseIn at he
    rw [hstart] at he
    cases he
    exact ⟨rfl, fun _ => ⟨nofun, nofun⟩⟩
  | some start =>
    obtain ⟨rule, hrule⟩ := hd.start g hg start hstart
    by_cases ha : args.length = rule.arity
    · have hf := hd.parseIn_fault hg hstart hrule source options ha session he
      generalize e.cause = cause at hf
      cases hf with
      | action hmem hf hc => exact .inl ⟨_, _, _, _, _, hmem, hf, hc⟩
      | construct => exact .inr ⟨rfl, fun _ => ⟨nofun, nofun⟩⟩
      | arguments _ _ _ _ hmem hl =>
        exact .inr ⟨rfl, fun _ => ⟨fun _ _ _ _ _ => ⟨_, _, _, hmem, hl⟩, nofun⟩⟩
      | value _ hmem hv hn => exact .inr ⟨rfl, fun _ => ⟨nofun, fun _ _ => ⟨_, _, hmem, hv, hn⟩⟩⟩
    · right
      unfold Domain.parseIn at he
      have hbind : (some start).bind d.rule? = some rule := hrule
      rw [hstart, hbind] at he
      dsimp only at he
      rw [if_pos ha] at he
      cases he
      exact ⟨rfl, fun hargs => absurd (hargs start rule rfl hrule) ha⟩

/-- A rule that declares a value and has no action that sets one. -/
theorem link_soundness_without_value :
    let r : Registry Unit := {
      grammars := [{
        name := "G"
        rules := [{ name := "S", definition := .text "x", valueType := some "Nat" }]
        start := some "S" }]
      index := [("G", 0)] }
    ∃ d g e, r.link = .ok d ∧ g ∈ d.grammars ∧ (d.parseIn g "x" {} [] {}).1 = .error (.error e) ∧
      e.cause = .missingValue "G.S" ∧
      ∃ rule context, .matched rule context ∈ d.history g "x" {} [] ∧
        rule.hasValue = true ∧ context.value = none := by
  intro r
  refine ⟨_, _, _, rfl, List.mem_cons_self, rfl, rfl, ?_⟩
  obtain ⟨_, _, _, _, _, hmem, _⟩ | ⟨_, hsound⟩ :=
    link_soundness (r := r) rfl List.mem_cons_self "x" {} [] {} _ rfl
  · have hnone := (List.all_eq_true (p := fun | .acted .. => false | _ => true)).1 rfl _ hmem
    nomatch hnone
  · refine (hsound fun id rule hid hrule => ?_).2 _ rfl
    cases hid
    cases hrule
    rfl

/-- A call that passes an argument without a hook fails for its number of arguments, though no hook has
produced another number than it should. -/
theorem unhooked_call_fails :
    let r : Registry Unit := {
      grammars := [{
        name := "G"
        rules := [
          { name := "S", definition := .callAs "t" "T" 1 },
          { name := "T", definition := .text "x", attributes := [⟨"n", "Nat"⟩] }]
        start := some "S" }]
      index := [("G", 0)] }
    ∃ d g e, r.link = .ok d ∧ g ∈ d.grammars ∧
      (∀ id rule, g.start = some id → d.rules[id]? = some rule → rule.arity = 0) ∧
      (d.parseIn g "x" {} [] {}).1 = .error (.error e) ∧
      e.cause = .argumentCountMismatch "G.S" "T" 1 0 ∧
      ∀ rule call context f, .called rule call context ∈ d.history g "x" {} [] →
        rule.preCall? call.label = some f → (f context).length = call.arity := by
  intro r
  refine ⟨_, _, _, rfl, List.mem_cons_self, fun id rule hid hrule => ?_, rfl, rfl,
    fun rule call context f hmem hf => ?_⟩
  · cases hid
    cases hrule
    rfl
  · have hnone := (List.all_eq_true
      (p := fun | .called rule call _ => (rule.preCall? call.label).isNone | _ => true)).1 rfl _ hmem
    simp [hf] at hnone

end PegFront
