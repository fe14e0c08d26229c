import Mathlib.Order.Bounds.Basic
import PegFront.Proofs.Origins
import PegFront.Proofs.Sessions

/-!
# The farthest failure

A parse that leaves some of its input reports the farthest place it got to and what was expected there. The
scanner keeps no more than this one place and the descriptions noted at it, which it drops as soon as a terminal
misses further on. That these are the farthest of all misses so far is an invariant of every run (`FailureRecord`),
and at the end it says what the error reports (`farthest_failure`).
-/

namespace PegFront

variable {V : Type}

/-! ## Misses -/

/-- A terminal that missed outside the skip rule: where it did, and what was expected there. -/
def Event.missed? : Event V → Option (Nat × String)
  | .tried terminal offset false .miss => some (offset, terminal.describe)
  | _ => none

/-- All misses outside the skip rule. -/
def misses (events : List (Event V)) : List (Nat × String) := events.filterMap Event.missed?

theorem misses_cons_of_none {e : Event V} (he : e.missed? = none) (events : List (Event V)) :
    misses (e :: events) = misses events := List.filterMap_cons_none he

/-- The record of a run from `start` holds the misses that are farthest in the input. -/
structure FailureRecord (start : Nat) (s : Scanner) (missed : List (Nat × String)) : Prop where
  bound : ∀ m ∈ missed, m.1 ≤ s.farthest
  exact : ∀ what, what ∈ s.expected ↔ (s.farthest, what) ∈ missed
  ascending : s.expected.Pairwise (· < ·)
  /-- Without a miss the record is where the run began. -/
  reached : s.farthest = start ∨ s.expected ≠ []

namespace FailureRecord

variable {start : Nat} {s t : Scanner} {missed : List (Nat × String)}

theorem congr (h : FailureRecord start s missed) (hf : t.farthest = s.farthest) (he : t.expected = s.expected) :
    FailureRecord start t missed := by
  obtain ⟨hbound, hexact, hascending, hreached⟩ := h
  exact ⟨hf ▸ hbound, by rw [hf, he]; exact hexact, he ▸ hascending, by rw [hf, he]; exact hreached⟩

/-- A miss behind the record changes nothing, one at the record adds to it, one further on replaces it. -/
theorem note (h : FailureRecord start s missed) (hs : s.skipping = false) (what : String) :
    FailureRecord start (s.note what) ((s.offset, what) :: missed) := by
  unfold Scanner.note
  rw [hs, Bool.false_or]
  split
  · next hlt =>
    have hlt : s.offset < s.farthest := of_decide_eq_true hlt
    refine ⟨List.forall_mem_cons.2 ⟨Nat.le_of_lt hlt, h.bound⟩, fun w => ?_, h.ascending, h.reached⟩
    have hne : (s.farthest, w) ≠ (s.offset, what) := fun he => Nat.ne_of_gt hlt (Prod.ext_iff.1 he).1
    rw [h.exact, List.mem_cons, or_iff_right hne]
  · next hle =>
    have hle : s.farthest ≤ s.offset := Nat.le_of_not_lt fun hlt => hle (decide_eq_true hlt)
    split
    · next hlt =>
      refine ⟨?_, fun w => ?_, List.pairwise_singleton _ _, .inr (List.cons_ne_nil _ _)⟩
      · exact List.forall_mem_cons.2 ⟨Nat.le_refl _, fun m hm => Nat.le_trans (h.bound m hm) hle⟩
      · have hnew : (s.offset, w) ∉ missed := fun hm => Nat.not_lt.2 (h.bound _ hm) hlt
        simp [hnew]
    · next hge =>
      obtain heq : s.offset = s.farthest := Nat.le_antisymm (Nat.le_of_not_lt hge) hle
      refine ⟨?_, fun w => ?_, Text.pairwise_insertSorted what h.ascending, .inr ?_⟩
      · exact List.forall_mem_cons.2 ⟨Nat.le_of_eq heq, h.bound⟩
      · rw [Text.mem_insertSorted, h.exact, heq, List.mem_cons, Prod.mk.injEq, eq_self, true_and]
      · exact List.ne_nil_of_mem ((Text.mem_insertSorted what what s.expected).2 (.inl rfl))

/-- The record and the place say how far the run got. -/
theorem isGreatest_reach (h : FailureRecord start s missed) (hs : start ≤ s.offset) :
    IsGreatest (insert s.offset {offset | ∃ what, (offset, what) ∈ missed}) s.reach := by
  unfold Scanner.reach
  constructor
  · rcases Nat.lt_or_ge s.offset s.farthest with hlt | hle
    · rw [Nat.max_eq_left (Nat.le_of_lt hlt)]
      obtain ⟨what, hwhat⟩ := List.exists_mem_of_ne_nil _ (h.reached.resolve_left (by omega))
      exact .inr ⟨what, (h.exact what).1 hwhat⟩
    · exact .inl (Nat.max_eq_right hle)
  · rintro offset (rfl | ⟨what, hm⟩)
    · exact Nat.le_max_right _ _
    · exact Nat.le_trans (h.bound _ hm) (Nat.le_max_left _ _)

theorem mem_expectedThere_iff (h : FailureRecord start s missed) (what : String) :
    what ∈ s.expectedThere ↔ (s.reach, what) ∈ missed := by
  unfold Scanner.expectedThere Scanner.reach
  split
  · next hlt =>
    rw [Nat.max_eq_right (Nat.le_of_lt hlt)]
    exact iff_of_false List.not_mem_nil fun hm => Nat.not_lt.2 (h.bound _ hm) hlt
  · next hge => rw [Nat.max_eq_left (Nat.le_of_not_lt hge), h.exact]

theorem pairwise_expectedThere (h : FailureRecord start s missed) : s.expectedThere.Pairwise (· < ·) := by
  unfold Scanner.expectedThere
  split
  · exact .nil
  · exact h.ascending

end FailureRecord

/-- Every run keeps the record of its misses. -/
theorem stable_failureRecord (i : Input) :
    Stable i fun p : State V × List (Event V) => FailureRecord i.start p.1.scanner (misses p.2) where
  state := fun _ h hf he => h.congr hf he
  skipped := fun _ h => h
  acted := fun _ _ _ _ h => h
  called := fun _ _ _ h => h
  matched := fun _ _ h => h
  hit := by
    intro p terminal n _ h
    rwa [misses_cons_of_none]
    cases p.1.scanner.skipping <;> rfl
  miss := by
    intro p terminal _ h
    dsimp only
    cases hs : p.1.scanner.skipping with
    | false => exact h.note hs terminal.describe
    | true =>
      have hsame : p.1.scanner.note terminal.describe = p.1.scanner := by simp [Scanner.note, hs]
      rw [hsame]
      exact h

/-! ## Reports -/

theorem Engine.expectationHelp_eq (names : List String) :
    expectationHelp names = if names = [] then none else
      some ("expected one of: " ++ ", ".intercalate (names.take 8) ++ if 8 < names.length then ", ..." else "") := by
  unfold expectationHelp listedDescriptions
  rcases names with _ | ⟨name, names⟩
  · rfl
  · simp only [List.isEmpty_cons, Bool.false_eq_true, if_false, reduceCtorEq]
    split
    · rw [if_neg (by omega), String.append_empty]
    · rw [if_pos (by omega), String.append_assoc]

theorem Engine.expectationHelp_eq_none_iff {names : List String} : expectationHelp names = none ↔ names = [] := by
  rw [expectationHelp_eq]
  split <;> simp_all

/-- A run that ends where some of the input is left is reported. -/
theorem Engine.outcome_runStart_incomplete {invoke : RuleId → Engine V Match} {id : RuleId} (rule : Rule V)
    (depth : Nat) {s t : State V} {m : Match} (h : outcome (matchStart invoke id) s = (.ok m, t))
    (hleft : m = .miss ∨ t.scanner.offset < t.scanner.input.stop) :
    (outcome (runStart invoke id rule depth) s).1 = .error (.error (incomplete t.scanner rule)) := by
  have hc : (m.isMiss || !t.scanner.atEnd) = true := by
    rcases hleft with rfl | hlt
    · rfl
    · simp [Scanner.atEnd, hlt]
  unfold runStart endStart
  rw [outcome_bind, h]
  dsimp only
  rw [outcome_bind, outcome_get]
  dsimp only
  rw [if_pos hc]
  rfl

/-- If the start rule misses or leaves some of the input, on whatever fuel, the parse fails with an error at the
farthest offset that the run ended at or that a terminal missed at outside the skip rule. It lists what was
expected there, and there is nothing to list exactly if no terminal missed there. -/
theorem farthest_failure {d : Domain V} {g : Grammar} {start : RuleId} (hstart : g.start = some start) {rule : Rule V}
    (hrule : d.rule? start = some rule) (source : String) (options : Options) {args : List V}
    (ha : args.length = rule.arity) (session : Session V) (fuel : Nat) {m : Match} {t : State V} {events : List (Event V)}
    (hrun : outcome (Recorder.matchStart (Recorder.invoke d.rules fuel) start)
      (Domain.startState g source options (session.stack.pushAll args), []) = (.ok m, t, events))
    (hleft : m = .miss ∨ t.scanner.offset < Text.byteLength source.toList) :
    ∃ (e : ParseError) (o : Origin) (names : List String),
      (outcome (Engine.runStart (Engine.invoke d.rules fuel) start rule session.stack.size)
        (Domain.startState g source options (session.stack.pushAll args))).1 = .error (.error e) ∧
      (fuel = d.fuelOf source → (d.parseIn g source options args session).1 = .error (.error e)) ∧
      e.origin = some o ∧
      IsGreatest (insert t.scanner.offset {offset | ∃ what, (offset, what) ∈ misses events}) o.span.start ∧
      names.Pairwise (· < ·) ∧ (∀ what, what ∈ names ↔ (o.span.start, what) ∈ misses events) ∧
      e.help = (if names = [] then none else
        some ("expected one of: " ++ ", ".intercalate (names.take 8) ++ if 8 < names.length then ", ..." else "")) ∧
      (e.help = none ↔ ∀ what, (o.span.start, what) ∉ misses events) := by
  have hsound := sound_startState g source options (session.stack.pushAll args)
  generalize hi : Input.whole source.toList options.fileIndex options.file = i at hsound
  have hbegin : FailureRecord i.start (Domain.startState g source options (session.stack.pushAll args)).scanner [] := by
    subst hi
    exact ⟨nofun, fun _ => iff_of_false List.not_mem_nil List.not_mem_nil, .nil, .inl rfl⟩
  obtain ⟨-, hs, hrecorded⟩ := wp_ok (Upholds.matchStart (stable_failureRecord i)
    (Upholds.invoke (stable_failureRecord i) d.rules fuel) start _ hsound hbegin) hrun
  have hstop : t.scanner.input.stop = Text.byteLength source.toList := by rw [hs.input, ← hi]; rfl
  have hengine : outcome (Engine.matchStart (Engine.invoke d.rules fuel) start)
      (Domain.startState g source options (session.stack.pushAll args)) = (.ok m, t) := by
    obtain ⟨events', he⟩ := Erases.matchStart (Erases.invoke d.rules fuel) start
      (Domain.startState g source options (session.stack.pushAll args)) []
    rw [hrun] at he
    simp only [Prod.mk.injEq] at he
    exact Prod.ext he.1.symm he.2.1.symm
  have hfails := Engine.outcome_runStart_incomplete rule session.stack.size hengine (hstop ▸ hleft)
  have hexpected := hrecorded.mem_expectedThere_iff
  have hat : (t.scanner.charSpanAt t.scanner.reach).start = t.scanner.reach := by
    unfold Scanner.charSpanAt
    split <;> rfl
  refine ⟨_, _, t.scanner.expectedThere, hfails, ?_, rfl, ?_, hrecorded.pairwise_expectedThere, ?_,
    Engine.expectationHelp_eq _, ?_⟩
  · rintro rfl
    rw [Domain.parseIn_eq hstart hrule source options ha session]
    exact hfails
  · exact hat.symm ▸ hrecorded.isGreatest_reach hs.cursor.start_le
  · exact hat.symm ▸ hexpected
  · refine Engine.expectationHelp_eq_none_iff.trans ?_
    show _ ↔ ∀ what, ((t.scanner.charSpanAt t.scanner.reach).start, what) ∉ misses events
    rw [hat, List.eq_nil_iff_forall_not_mem]
    exact forall_congr' fun what => not_congr (hexpected what)

/-- The hint a parse that failed gives. -/
def help? {α : Type} : Except Stop α → Option (Option String)
  | .error (.error e) => some e.help
  | _ => none

/-- Two ways miss behind a space that was skipped on trial, a third one at the beginning. -/
theorem farthest_failure_behind_space :
    let r : Registry Unit := {
      grammars := [{
        name := "G"
        rules := [
          { name := "S", definition := .choice [.seq (.text "ab") (.text "d"), .text "x", .seq (.text "ab") (.text "c")] },
          { name := "Spaces", definition := .many (.one .space) }]
        start := some "S"
        skip := some "Spaces" }]
      index := [("G", 0)] }
    ∃ d g rule, r.link = .ok d ∧ d.grammars = [g] ∧ g.start = some 0 ∧ d.rule? 0 = some rule ∧ rule.arity = 0 ∧
      ∃ t events, outcome (Recorder.matchStart (Recorder.invoke d.rules (d.fuelOf "ab y")) 0)
          (Domain.startState g "ab y" {} (Stack.empty.pushAll []), []) = (.ok .miss, t, events) ∧
        ∃ e o, (d.parseIn g "ab y" {} [] {}).1 = .error (.error e) ∧ e.origin = some o ∧
          IsGreatest (insert t.scanner.offset {offset | ∃ what, (offset, what) ∈ misses events}) o.span.start ∧
          e.help = some "expected one of: \"c\", \"d\"" := by
  intro r
  have reports : ∀ (d : Domain Unit) (g : Grammar) (rule : Rule Unit), g.start = some 0 → d.rule? 0 = some rule →
      rule.arity = 0 → (outcome (Recorder.matchStart (Recorder.invoke d.rules (d.fuelOf "ab y")) 0)
        (Domain.startState g "ab y" {} (Stack.empty.pushAll []), [])).1.toOption = some .miss →
      help? (d.parseIn g "ab y" {} [] {}).1 = some (some "expected one of: \"c\", \"d\"") →
      ∃ t events, outcome (Recorder.matchStart (Recorder.invoke d.rules (d.fuelOf "ab y")) 0)
          (Domain.startState g "ab y" {} (Stack.empty.pushAll []), []) = (.ok .miss, t, events) ∧
        ∃ e o, (d.parseIn g "ab y" {} [] {}).1 = .error (.error e) ∧ e.origin = some o ∧
          IsGreatest (insert t.scanner.offset {offset | ∃ what, (offset, what) ∈ misses events}) o.span.start ∧
          e.help = some "expected one of: \"c\", \"d\"" := by
    intro d g rule hstart hrule ha hmiss hhelp
    rcases hrun : outcome (Recorder.matchStart (Recorder.invoke d.rules (d.fuelOf "ab y")) 0)
      (Domain.startState g "ab y" {} (Stack.empty.pushAll []), []) with ⟨_ | m, t, events⟩
    · rw [hrun] at hmiss
      nomatch hmiss
    · rw [hrun] at hmiss
      obtain rfl : m = .miss := Option.some.inj hmiss
      have hargs : ([] : List Unit).length = rule.arity := ha.symm
      obtain ⟨e, o, _, -, hparse, ho, hgreatest, -⟩ :=
        farthest_failure hstart hrule "ab y" {} hargs {} _ hrun (.inl rfl)
      rw [hparse rfl] at hhelp
      exact ⟨t, events, rfl, e, o, hparse rfl, ho, hgreatest, Option.some.inj hhelp⟩
  exact ⟨_, _, _, rfl, rfl, rfl, rfl, rfl, reports _ _ _ rfl rfl rfl (by decide +kernel) (by decide +kernel)⟩

end PegFront
