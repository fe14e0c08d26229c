import PegFront.Proofs.Origins
import PegFront.Proofs.Realization

/-!
# Regrouping sequences

A sequence runs its two parts with what may be skipped between them, and gives back what it skipped before a
second part that matches nothing. So the grouping of three parts decides where and how often something is skipped:
if the second part matches nothing, one grouping goes back and skips again, the other one skips where it stands.
They come to the same if skipping where something was just skipped does nothing.
-/

namespace PegFront

variable {V : Type}

open Filter

/-! ## Sequences of computations -/

namespace Engine

/-- Two computations, one after the other, with what may be skipped between them. -/
def sequence (skip : Engine V Unit) (first second : Engine V Match) : Engine V Match := do
  let start ← here
  match ← first with
  | .miss => return .miss
  | .hit _ =>
    let middle ← here
    skip
    match ← second with
    | .miss =>
      moveTo start
      return .miss
    | .hit 0 =>
      moveTo middle
      hitFrom start
    | .hit _ => hitFrom start

end Engine

theorem Pattern.run_seq (rules : Array (Rule V)) (fuel : Nat) (invoke : RuleId → Engine V Match) (rule : Rule V)
    (a b : Pattern) : (Pattern.seq a b).run rules fuel invoke rule =
      Engine.sequence (Engine.skip invoke) (a.run rules fuel invoke rule) (b.run rules fuel invoke rule) := rfl

section
variable {skip : Engine V Unit} {first second third : Engine V Match} {s t u v : State V} {e : Stop} {n : Nat}

theorem outcome_sequence_error (h : outcome first s = (.error e, t)) :
    outcome (Engine.sequence skip first second) s = (.error e, t) := by
  unfold Engine.sequence
  rw [outcome_bind]
  show outcome (first >>= _) s = _
  rw [outcome_bind, h]

theorem outcome_sequence_miss (h : outcome first s = (.ok .miss, t)) :
    outcome (Engine.sequence skip first second) s = (.ok .miss, t) := by
  unfold Engine.sequence
  rw [outcome_bind]
  show outcome (first >>= _) s = _
  rw [outcome_bind, h]
  rfl

theorem outcome_sequence_skip (h : outcome first s = (.ok (.hit n), t)) (hskip : outcome skip t = (.error e, u)) :
    outcome (Engine.sequence skip first second) s = (.error e, u) := by
  unfold Engine.sequence
  rw [outcome_bind]
  show outcome (first >>= _) s = _
  rw [outcome_bind, h]
  dsimp only
  rw [outcome_bind]
  show outcome (skip >>= _) t = _
  rw [outcome_bind, hskip]

/-- After a hit of the first part and what is skipped behind it. -/
theorem outcome_sequence_hit (h : outcome first s = (.ok (.hit n), t)) (hskip : outcome skip t = (.ok (), u)) :
    outcome (Engine.sequence skip first second) s = match outcome second u with
      | (.error e, v) => (.error e, v)
      | (.ok .miss, v) => (.ok .miss, v.moveTo s.scanner.cursor)
      | (.ok (.hit 0), v) => (.ok (.hit (t.scanner.offset - s.scanner.offset)), v.moveTo t.scanner.cursor)
      | (.ok (.hit (_ + 1)), v) => (.ok (.hit (v.scanner.offset - s.scanner.offset)), v) := by
  unfold Engine.sequence
  rw [outcome_bind]
  show outcome (first >>= _) s = _
  rw [outcome_bind, h]
  dsimp only
  rw [outcome_bind]
  show outcome (skip >>= _) t = _
  rw [outcome_bind, hskip]
  dsimp only
  rw [outcome_bind]
  rcases outcome second u with ⟨e | (_ | n) | _, v⟩ <;> rfl

/-- A computation that keeps the law of positions. -/
def Reaching (m : Engine V Match) : Prop :=
  ∀ {s : State V}, s.scanner.cursor.In s.scanner.input → ∀ {r t}, outcome m s = (.ok r, t) → Reached s r t

theorem reaching_run (rules : Array (Rule V)) (fuel : Nat) (rule : Rule V) (p : Pattern) :
    Reaching (p.run rules fuel (Engine.invoke rules fuel) rule) :=
  fun hs _ _ h => wp_ok ((Disciplined.run rules fuel (Disciplined.invoke rules fuel) rule p).reached
    (Erases.run rules fuel (Erases.invoke rules fuel) rule p) hs) h

theorem onward_skip (rules : Array (Rule V)) (fuel : Nat) {s : State V} (hs : s.scanner.cursor.In s.scanner.input)
    {t : State V} (h : outcome (Engine.skip (Engine.invoke rules fuel)) s = (.ok (), t)) : Onward s t :=
  wp_ok (a := ()) ((Advancing.skip (Disciplined.invoke rules fuel)).onward (Erases.skip (Erases.invoke rules fuel)) hs) h

/-- Both groupings of three computations come to the same if, where the second one matches nothing, skipping again
leads to where it stands, from there and from where the first one ended. -/
theorem sequence_assoc
    (hskip : ∀ {s : State V}, s.scanner.cursor.In s.scanner.input → ∀ {t}, outcome skip s = (.ok (), t) → Onward s t)
    (h₁ : Reaching first) (h₂ : Reaching second) (h₃ : Reaching third) (hs : s.scanner.cursor.In s.scanner.input)
    (hback : ∀ n s₁ s₂ s₃, outcome first s = (.ok (.hit n), s₁) → outcome skip s₁ = (.ok (), s₂) →
      outcome second s₂ = (.ok (.hit 0), s₃) →
      outcome skip (s₃.moveTo s₁.scanner.cursor) = (.ok (), s₃) ∧ outcome skip s₃ = (.ok (), s₃)) :
    outcome (Engine.sequence skip (Engine.sequence skip first second) third) s =
      outcome (Engine.sequence skip first (Engine.sequence skip second third)) s := by
  rcases hout₁ : outcome first s with ⟨e | n₁ | _, s₁⟩
  · rw [outcome_sequence_error (outcome_sequence_error hout₁), outcome_sequence_error hout₁]
  · have hs₁ := h₁ hs hout₁
    have hplace₁ := hs₁.input.symm ▸ hs₁.cursor
    rcases hout : outcome skip s₁ with ⟨e | ⟨⟩, s₂⟩
    · rw [outcome_sequence_error (outcome_sequence_skip hout₁ hout), outcome_sequence_skip hout₁ hout]
    have hs₂ := hskip hplace₁ hout
    have hplace₂ := hs₂.input.symm ▸ hs₂.cursor
    have hinner : outcome (Engine.sequence skip first second) s = _ := outcome_sequence_hit hout₁ hout
    rw [outcome_sequence_hit hout₁ hout]
    rcases hout₂ : outcome second s₂ with ⟨e | n₂ | _, s₃⟩ <;> rw [hout₂] at hinner
    · rw [outcome_sequence_error hinner, outcome_sequence_error hout₂]
    · have hs₃ := h₂ hplace₂ hout₂
      have hplace₃ := hs₃.input.symm ▸ hs₃.cursor
      have hoffset₃ : s₃.scanner.offset = s₂.scanner.offset + n₂ := hs₃.ends
      cases n₂ with
      | zero =>
        -- One grouping goes back before it skips, the other one does not.
        obtain ⟨hagain, hstay⟩ := hback n₁ s₁ s₂ s₃ hout₁ hout hout₂
        rw [outcome_sequence_hit hinner hagain, outcome_sequence_hit hout₂ hstay]
        rcases hout₃ : outcome third s₃ with ⟨e | n₃ | _, s₄⟩
        · rfl
        · have hoffset₄ : s₄.scanner.offset = s₃.scanner.offset + n₃ := (h₃ hplace₃ hout₃).ends
          cases n₃ with
          | zero =>
            simp only [hoffset₃, Nat.add_zero, Nat.sub_self]
            rfl
          | succ n₃ =>
            have hlength : s₄.scanner.offset - s₂.scanner.offset = n₃ + 1 := by omega
            simp only [hlength]
        · rfl
      | succ n₂ =>
        rcases hout' : outcome skip s₃ with ⟨e | ⟨⟩, s₄⟩
        · rw [outcome_sequence_skip hinner hout', outcome_sequence_skip hout₂ hout']
        have hs₄ := hskip hplace₃ hout'
        have hplace₄ := hs₄.input.symm ▸ hs₄.cursor
        have hle₄ := hs₄.le
        rw [outcome_sequence_hit hinner hout', outcome_sequence_hit hout₂ hout']
        rcases hout₃ : outcome third s₄ with ⟨e | n₃ | _, s₅⟩
        · rfl
        · have hoffset₅ : s₅.scanner.offset = s₄.scanner.offset + n₃ := (h₃ hplace₄ hout₃).ends
          cases n₃ with
          | zero =>
            have hlength : s₃.scanner.offset - s₂.scanner.offset = n₂ + 1 := by omega
            simp only [hlength]
            rfl
          | succ n₃ =>
            obtain ⟨k, hlength⟩ : ∃ k, s₅.scanner.offset - s₂.scanner.offset = k + 1 :=
              ⟨s₅.scanner.offset - s₂.scanner.offset - 1, by omega⟩
            simp only [hlength]
        · rfl
    · rw [outcome_sequence_miss hinner, outcome_sequence_miss hout₂]
  · rw [outcome_sequence_miss (outcome_sequence_miss hout₁), outcome_sequence_miss hout₁]

end

/-! ## Skipping again -/

/-- Where something was just skipped, skipping again is no error and leads nowhere. -/
def SkipIdempotent (rules : Array (Rule V)) (s : State V) : Prop :=
  ∀ c t, c.In s.scanner.input → SkipEnds rules (s.moveTo c) (.ok ()) t →
    ∃ u, SkipEnds rules t (.ok ()) u ∧ u.scanner.cursor = t.scanner.cursor

theorem Steady.moveTo (s : State V) (c : Cursor) : Steady s (s.moveTo c) := ⟨Eq.refl _, Eq.refl _, Eq.refl _, Eq.refl _⟩

theorem At.moveTo {w : World V} {skip : Option RuleId} {ctx : Context V} {s : State V} {c d : Cursor}
    (h : At w skip ctx c s) (hd : d.In s.scanner.input) : At w skip ctx d (s.moveTo d) :=
  h.move (.moveTo s d) hd rfl h.context

theorem Cursor.In.eq_of_offset {c d : Cursor} {i : Input} (hc : c.In i) (hd : d.In i) (h : c.offset = d.offset) :
    c = d := by
  obtain ⟨o, rest⟩ := c
  obtain ⟨o', rest'⟩ := d
  obtain rfl : o = o' := h
  obtain rfl : rest = rest' := Option.some.inj (hc.slice.symm.trans hd.slice)
  rfl

/-- What is skipped does not depend on the context. -/
theorem Derives.skip_anywhere {w : World V} {skip : Option RuleId} {ctx : Context V} {c d : Cursor}
    (h : Derives w skip (.skip ctx) c (.hit ctx d)) (ctx' : Context V) : Derives w skip (.skip ctx') c (.hit ctx' d) := by
  cases h with
  | skip_none => exact .skip_none
  | skip_hit h => exact .skip_hit h
  | skip_miss h => exact .skip_miss h

/-- The world of a state. -/
def State.world (rules : Array (Rule V)) (s : State V) : World V := ⟨rules, s.scanner.input.file, s.scanner.input.fileIndex⟩

section
variable {rules : Array (Rule V)} {s t : State V} {c d : Cursor}

theorem State.at_cursor (rules : Array (Rule V)) (hs : s.scanner.cursor.In s.scanner.input) :
    At (s.world rules) s.scanner.skipsWith s.context s.scanner.cursor s := ⟨rfl, hs, rfl, rfl, rfl, rfl⟩

theorem SkipReady.canSkip (h : SkipReady rules s) : (s.world rules).CanSkip s.scanner.skipsWith :=
  fun id hid => h id (Scanner.skipsWith_eq_some hid).1

variable (hw : ∀ (id : RuleId) rule, rules[id]? = some rule → rule.definition.Linked rules rule)
  (hready : SkipReady rules s) (hs : s.scanner.cursor.In s.scanner.input)
include hw hready hs

/-- An idempotent skip rule stays where it has skipped to. -/
theorem SkipIdempotent.stays (h : SkipIdempotent rules s) (hc : c.In s.scanner.input) {ctx : Context V}
    (hd : Derives (s.world rules) s.scanner.skipsWith (.skip ctx) c (.hit ctx d)) (hplace : d.In s.scanner.input) :
    Derives (s.world rules) s.scanner.skipsWith (.skip ctx) d (.hit ctx d) := by
  have hat := State.at_cursor rules hs
  have hfrom := hat.moveTo hc
  have hto := hat.moveTo hplace
  have hends := (skipEnds_iff hw hready.canSkip hfrom).2 ⟨d, hd.skip_anywhere _, rfl⟩
  obtain ⟨u, hu, hcursor⟩ := h c _ hc hends
  obtain ⟨e, he, rfl⟩ := (skipEnds_iff hw hready.canSkip hto).1 hu
  obtain rfl : e = d := hcursor
  exact he.skip_anywhere ctx

/-- Where a pattern matches nothing after something was skipped, an idempotent skip rule leads there again, from
where it was applied and from there. -/
theorem SkipIdempotent.eventually_back (h : SkipIdempotent rules s) (rule : Rule V) (a b : Pattern) :
    ∀ᶠ fuel in atTop, ∀ n s₁ s₂ s₃, outcome (a.run rules fuel (Engine.invoke rules fuel) rule) s = (.ok (.hit n), s₁) →
      outcome (Engine.skip (Engine.invoke rules fuel)) s₁ = (.ok (), s₂) →
      outcome (b.run rules fuel (Engine.invoke rules fuel) rule) s₂ = (.ok (.hit 0), s₃) →
      outcome (Engine.skip (Engine.invoke rules fuel)) (s₃.moveTo s₁.scanner.cursor) = (.ok (), s₃) ∧
        outcome (Engine.skip (Engine.invoke rules fuel)) s₃ = (.ok (), s₃) := by
  by_cases hsome : ∃ fuel n s₁ s₂ s₃, outcome (a.run rules fuel (Engine.invoke rules fuel) rule) s = (.ok (.hit n), s₁) ∧
    outcome (Engine.skip (Engine.invoke rules fuel)) s₁ = (.ok (), s₂) ∧
    outcome (b.run rules fuel (Engine.invoke rules fuel) rule) s₂ = (.ok (.hit 0), s₃)
  swap
  · exact .of_forall fun fuel n s₁ s₂ s₃ h₁ h₂ h₃ => (hsome ⟨fuel, n, s₁, s₂, s₃, h₁, h₂, h₃⟩).elim
  obtain ⟨fuel₀, n, s₁, s₂, s₃, h₁, h₂, h₃⟩ := hsome
  -- Nothing but the place and what the patterns themselves have done changes on the way.
  have hat := State.at_cursor rules hs
  have hreached₁ := reaching_run rules fuel₀ rule a hs h₁
  have hsteady₁ := wp_ok (Unaltering.run (Unaltering.invoke rules fuel₀) rules fuel₀ rule a s) h₁
  have hat₁ := hat.move hsteady₁.toSteady hreached₁.cursor rfl rfl
  obtain ⟨d, hd, hplace, rfl⟩ := outcome_skip hw hready.canSkip hat₁ h₂
  have hreached₃ := reaching_run rules fuel₀ rule b (s := s₁.moveTo d) hplace h₃
  have hsteady₃ := wp_ok (Unaltering.run (Unaltering.invoke rules fuel₀) rules fuel₀ rule b _) h₃
  have hcursor : s₃.scanner.cursor = d := hreached₃.cursor.eq_of_offset hplace hreached₃.ends
  have hd' := hd.skip_anywhere s₃.context
  have hsteady : Steady s s₃ := (hsteady₁.toSteady.trans (.moveTo s₁ d)).trans hsteady₃.toSteady
  have hplace' := hreached₁.input ▸ hplace
  have hstays := h.stays hw hready hs hreached₁.cursor hd' hplace'
  have hback := hat.move (hsteady.trans (.moveTo s₃ s₁.scanner.cursor)) hreached₁.cursor rfl rfl
  have hthere := hat.move hsteady hplace' hcursor rfl
  filter_upwards [hd'.eventually_skips hw hready.canSkip, hstays.eventually_skips hw hready.canSkip,
    eventually_ge_atTop fuel₀] with fuel hskips hskips' hle n' s₁' s₂' s₃' h₁' h₂' h₃'
  cases ((Extends.run (Extends.invoke rules hle) rules hle rule a).outcome_eq h₁ nofun).symm.trans h₁'
  cases ((Extends.skip (Extends.invoke rules hle)).outcome_eq h₂ nofun).symm.trans h₂'
  cases ((Extends.run (Extends.invoke rules hle) rules hle rule b).outcome_eq h₃ nofun).symm.trans h₃'
  subst hcursor
  exact ⟨hskips _ hback, hskips' _ hthere⟩

end

/-! ## Grouping -/

/-- Both groupings of three patterns come to the same, with the same matches, errors and final states, if skipping
again where something was just skipped does nothing. -/
theorem seq_assoc {r : Registry V} {d : Domain V} (h : r.link = .ok d) (s : State V)
    (hs : s.scanner.cursor.In s.scanner.input) (hready : SkipReady d.rules s) (hidem : SkipIdempotent d.rules s)
    (rule : Rule V) (a b c : Pattern) (result : Except ParseError Match) (t : State V) :
    Pattern.Ends d.rules rule (.seq (.seq a b) c) s result t ↔
      Pattern.Ends d.rules rule (.seq a (.seq b c)) s result t := by
  have hw := (Registry.linked h).rules
  rw [Pattern.ends_iff_eventually, Pattern.ends_iff_eventually]
  refine eventually_congr ?_
  filter_upwards [hidem.eventually_back hw hready hs rule a b] with fuel hback
  rw [Pattern.run_seq, Pattern.run_seq, Pattern.run_seq, Pattern.run_seq]
  rw [sequence_assoc (onward_skip d.rules fuel) (reaching_run d.rules fuel rule a) (reaching_run d.rules fuel rule b)
    (reaching_run d.rules fuel rule c) hs hback]

/-- Behind as many chars of a kind as there are, there are no more of them. -/
theorem Derives.rounds_one_again {w : World V} {rule : Rule V} {kind : CharKind} {first : Bool} {ctx ctx₁ : Context V}
    {c d : Cursor} (h : Derives w none (.rounds rule (.one kind) first ctx) c (.hit ctx₁ d)) (ctx' : Context V) :
    Derives w none (.rounds rule (.one kind) true ctx') d (.hit ctx' d) := by
  generalize hjob : Job.rounds rule (.one kind) first ctx = job at h
  generalize hskip : (none : Option RuleId) = skip at h
  generalize hr : Answer.hit ctx₁ d = r at h
  induction h generalizing first ctx with
  | rounds_end hc =>
    cases hr
    exact .rounds_end hc
  | @rounds_miss _ _ _ first _ _ c c₁ hc hs h =>
    cases hr
    cases hjob
    cases hskip
    obtain rfl : c₁ = d := by
      rw [ite_self] at hs
      cases hs
      rfl
    cases h with
    | one_miss hn => exact .rounds_miss hc .skip_none (.one_miss hn)
  | rounds_hit hc hs h hrest _ _ ih =>
    cases hjob
    exact ih rfl hskip hr
  | rounds_stop_skip | rounds_stop => cases hr
  | _ => cases hjob

/-- To skip as many chars of a kind as there are is idempotent. -/
theorem SkipIdempotent.of_many_one {rules : Array (Rule V)} {s : State V}
    (hw : ∀ (id : RuleId) rule, rules[id]? = some rule → rule.definition.Linked rules rule)
    (hs : s.scanner.cursor.In s.scanner.input) {id : RuleId} {spaces : Rule V} {kind : CharKind}
    (hid : s.scanner.skipRule = some id) (hspaces : rules[id]? = some spaces) (harity : spaces.arity = 0)
    (hvalue : spaces.hasValue = false) (hdef : spaces.definition = .many (.one kind)) : SkipIdempotent rules s := by
  have hready : SkipReady rules s := by
    intro id' hid'
    obtain rfl := Option.some.inj (hid.symm.trans hid')
    exact ⟨spaces, hspaces, harity⟩
  have hat := State.at_cursor rules hs
  rintro c t hc ⟨fuel, hout⟩
  have hfrom := hat.moveTo hc
  obtain ⟨d, hd, hplace, rfl⟩ := outcome_skip hw hready.canSkip hfrom hout
  have hto := hat.moveTo hplace
  refine ⟨_, (skipEnds_iff hw hready.canSkip hto).2 ⟨d, ?_, rfl⟩, rfl⟩
  generalize hskip : s.scanner.skipsWith = skip at hd
  cases hd with
  | skip_none => exact .skip_none
  | skip_miss h => exact .skip_miss h
  | skip_hit h =>
    obtain rfl := Option.some.inj ((Scanner.skipsWith_eq_some hskip).1.symm.trans hid)
    cases h with
    | rule_hit hr ha h _ =>
      obtain rfl := Option.some.inj (hspaces.symm.trans hr)
      rw [hdef] at h
      cases h with
      | many h =>
        have hagain := Derives.many (h.rounds_one_again (.enter spaces.attributes [] d.offset))
        rw [← hdef] at hagain
        exact .skip_hit (.rule_hit hspaces ha hagain fun h => (Bool.eq_false_iff.1 hvalue h).elim)

/-- The second part matches nothing between two spaces. -/
theorem seq_assoc_spaces :
    let r : Registry Unit := {
      grammars := [{
        name := "G"
        rules := [{ name := "S", definition := .text "a" }, { name := "Spaces", definition := .many (.one .space) }]
        start := some "S"
        skip := some "Spaces" }]
      index := [("G", 0)] }
    let a := Pattern.text "a"
    let b := Pattern.opt (.text "x")
    let c := Pattern.text "b"
    ∃ d g, r.link = .ok d ∧ d.grammars = [g] ∧
      let s := Domain.startState g "a  b" {} .empty
      (outcome (Pattern.run d.rules 4 (Engine.invoke d.rules 4) (.new "R" .empty) (.seq (.seq a b) c)) s).1.toOption =
        some (.hit 4) ∧
      ∀ result t, Pattern.Ends d.rules (.new "R" .empty) (.seq (.seq a b) c) s result t ↔
        Pattern.Ends d.rules (.new "R" .empty) (.seq a (.seq b c)) s result t := by
  intro r a b c
  refine ⟨_, _, rfl, rfl, by decide +kernel, ?_⟩
  have hd := Registry.linked (r := r) rfl
  have hs := fun g : Grammar => (sound_startState (V := Unit) g "a  b" {} .empty).cursor
  exact seq_assoc (r := r) rfl _ (hs _) (hd.skipReady List.mem_cons_self _ _ _)
    (.of_many_one hd.rules (hs _) rfl rfl rfl rfl rfl) _ a b c

end PegFront
