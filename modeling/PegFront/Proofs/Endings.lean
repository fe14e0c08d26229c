import PegFront.Proofs.Frames
import PegFront.Proofs.Fuel
import PegFront.Proofs.Invariants
import PegFront.Proofs.Nodes

/-!
# Where matches end

Whatever is skipped is skipped on trial: if nothing follows it, it is given back. So a match that is not empty ends
where a terminal has ended, never behind something skipped (`Clear`), as long as what is repeated never matches
nothing. An item of a list that matches nothing would end behind what was skipped before it.
-/

namespace PegFront

variable {V α : Type}

/-- Single chars, literals and keywords. -/
def Pattern.isTerminal : Pattern → Bool
  | .one _ | .text _ | .keyword _ => true
  | _ => false

/-- What the pattern repeats. -/
def Pattern.repeated? : Pattern → Option Pattern
  | .many p | .many1 p | .list p _ => some p
  | _ => none

/-- Outside the skip rule a terminal has matched something that ends here. -/
def Landed (events : List (Event V)) (offset : Nat) : Prop :=
  ∃ terminal start n, terminal.isTerminal = true ∧ .tried terminal start false (.hit (n + 1)) ∈ events ∧
    start + (n + 1) = offset

theorem Landed.mono {events events' : List (Event V)} {offset : Nat} (h : Landed events offset)
    (hsub : events ⊆ events') : Landed events' offset := by
  obtain ⟨terminal, start, n, hterminal, hmem, hstart⟩ := h
  exact ⟨terminal, start, n, hterminal, hsub hmem, hstart⟩

/-- A match that is not empty ends so. -/
def Lands (m : Match) (q : State V × List (Event V)) : Prop := ∀ n, m = .hit (n + 1) → Landed q.2 q.1.scanner.offset

theorem Lands.miss {q : State V × List (Event V)} : Lands .miss q := by
  rintro n ⟨⟩

theorem Lands.empty {q : State V × List (Event V)} : Lands (.hit 0) q := by
  rintro n ⟨⟩

/-- It still does so after what moves nothing. -/
theorem Lands.still {m : Match} {q : State V × List (Event V)} (h : Lands m q) {t : State V}
    {events : List (Event V)} (hc : t.scanner.cursor = q.1.scanner.cursor) (hsub : q.2 ⊆ events) :
    Lands m (t, events) := by
  intro n hn
  show Landed events t.scanner.cursor.offset
  rw [hc]
  exact (h n hn).mono hsub

/-! ## Runs outside the skip rule -/

/-- `q` comes after `p`, outside the skip rule. -/
structure Later (i : Input) (p q : State V × List (Event V)) : Prop where
  sound : Sound i q
  outside : q.1.scanner.skipping = false
  events : p.2 ⊆ q.2

namespace Later

variable {i : Input} {p q u : State V × List (Event V)}

theorem rfl (h : Sound i p) (hout : p.1.scanner.skipping = false) : Later i p p := ⟨h, hout, List.Subset.refl _⟩

theorem trans (h : Later i p q) (h' : Later i q u) : Later i p u :=
  ⟨h'.sound, h'.outside, List.Subset.trans h.events h'.events⟩

theorem moveTo (h : Later i p q) {c : Cursor} (hc : c.In i) : Later i p (q.1.moveTo c, q.2) :=
  ⟨h.sound.moveTo hc, h.outside, h.events⟩

end Later

/-- From outside the skip rule the computation ends outside of it, with a longer history. -/
def Passes (r : Recorder V α) : Prop :=
  ∀ i p, Sound i p → p.1.scanner.skipping = false → wp r (fun _ => Later i p) (fun _ _ => True) p

theorem stable_events (i : Input) (events : List (Event V)) : Stable i fun p => events ⊆ p.2 where
  state := fun _ h _ _ => h
  skipped := fun _ h => List.subset_cons_of_subset _ h
  acted := fun _ _ _ _ h => List.subset_cons_of_subset _ h
  called := fun _ _ _ h => List.subset_cons_of_subset _ h
  matched := fun _ _ h => List.subset_cons_of_subset _ h
  hit := fun _ _ _ h => List.subset_cons_of_subset _ h
  miss := fun _ _ h => List.subset_cons_of_subset _ h

/-- What holds of the run of an engine holds of its recorder. -/
theorem Erases.wp_of {r : Recorder V α} {m : Engine V α} (h : Erases r m) {Q : α → State V → Prop}
    {E : Stop → State V → Prop} {p : State V × List (Event V)} (hm : PegFront.wp m Q E p.1) :
    PegFront.wp r (fun a q => Q a q.1) (fun e q => E e q.1) p := by
  obtain ⟨s, events⟩ := p
  obtain ⟨events', ho⟩ := h s events
  refine wp_of_outcome (fun a q hq => ?_) fun e q hq => ?_
  · rw [ho] at hq
    cases hout : outcome m s
    simp only [hout, Prod.mk.injEq] at hq
    obtain ⟨rfl, rfl⟩ := hq
    exact wp_ok hm hout
  · rw [ho] at hq
    cases hout : outcome m s
    simp only [hout, Prod.mk.injEq] at hq
    obtain ⟨rfl, rfl⟩ := hq
    exact wp_error hm hout

theorem Passes.of_engine {r : Recorder V α} {m : Engine V α}
    (hr : ∀ i I, Stable i I → Upholds i I (fun _ => True) r) (he : Erases r m) (hm : Unaltering m) : Passes r := by
  intro i p h hout
  refine wp_mono (wp_and (hr i _ (stable_events i p.2) p h (List.Subset.refl _)) (he.wp_of (hm p.1))) ?_
    fun _ _ _ => trivial
  rintro a q ⟨⟨-, hs, hevents⟩, hsame⟩
  exact ⟨hs, hsame.skipping.trans hout, hevents⟩

section
variable (rules : Array (Rule V)) (fuel : Nat)

theorem passes_skip : Passes (Recorder.skip (Recorder.invoke rules fuel)) :=
  .of_engine (fun _ _ hst => .skip hst (.invoke hst rules fuel)) (.skip (.invoke rules fuel))
    (.skip (.invoke rules fuel))

theorem passes_run (rule : Rule V) (p : Pattern) :
    Passes (p.record rules fuel (Recorder.invoke rules fuel) rule) :=
  .of_engine (fun _ _ hst => .run hst (.invoke hst rules fuel) (.invoke rules fuel) rules fuel rule p)
    (.run rules fuel (.invoke rules fuel) rule p) (.run (.invoke rules fuel) rules fuel rule p)

theorem passes_invoke (id : RuleId) : Passes (Recorder.invoke rules fuel id) :=
  .of_engine (fun _ _ hst => .invoke hst rules fuel id) (.invoke rules fuel id) (.invoke rules fuel id)

end

/-! ## Matches -/

/-- A match from `p` that ended in `q`, where a terminal has ended unless it is empty. -/
structure Cleared (i : Input) (p : State V × List (Event V)) (m : Match) (q : State V × List (Event V)) : Prop
    extends Later i p q where
  ended : Ended i p.1.scanner.cursor m q
  landed : Lands m q

/-- From outside the skip rule every match of the computation is such a one. -/
def Clear (r : Recorder V Match) : Prop :=
  ∀ i p, Sound i p → p.1.scanner.skipping = false → wp r (Cleared i p) (fun _ _ => True) p

/-- Outside the skip rule the pattern never matches nothing. -/
def Pattern.Fills (rules : Array (Rule V)) (fuel : Nat) (rule : Rule V) (p : Pattern) : Prop :=
  ∀ s : State V, s.scanner.cursor.In s.scanner.input → s.scanner.skipping = false →
    (outcome (p.run rules fuel (Engine.invoke rules fuel) rule) s).1 ≠ .ok (.hit 0)

/-- Nothing that is repeated in the pattern ever matches nothing. -/
def Pattern.Solid (rules : Array (Rule V)) (fuel : Nat) (rule : Rule V) (p : Pattern) : Prop :=
  ∀ n q, p.Has n → n.repeated? = some q → q.Fills rules fuel rule

theorem Pattern.Solid.child {rules : Array (Rule V)} {fuel : Nat} {rule : Rule V} {p q : Pattern}
    (h : p.Solid rules fuel rule) (hq : q ∈ p.children) : q.Solid rules fuel rule :=
  fun n q' hn => h n q' (.child hq hn)

/-- Of a computation that is known to pass and to keep the law of positions only the last part is left to show. -/
theorem Clear.of {r : Recorder V Match} (hp : Passes r) (hd : Disciplined r)
    (h : ∀ i p, Sound i p → p.1.scanner.skipping = false → wp r Lands (fun _ _ => True) p) : Clear r := by
  intro i p hs hout
  refine wp_mono (wp_and (hp i p hs hout) (wp_and (hd i p hs) (h i p hs hout))) ?_ fun _ _ _ => trivial
  rintro m q ⟨hlater, hended, hlanded⟩
  exact ⟨hlater, hended, hlanded⟩

/-- The match is never an empty one. -/
def Filling (r : Recorder V Match) : Prop :=
  ∀ i p, Sound i p → p.1.scanner.skipping = false → wp r (fun m q => Cleared i p m q ∧ m ≠ .hit 0) (fun _ _ => True) p

/-- A loop from `p` stopped in `q`: where it began or where a terminal has ended. -/
structure Halted (i : Input) (p q : State V × List (Event V)) : Prop extends Later i p q where
  landed : q.1.scanner.offset = p.1.scanner.offset ∨ Landed q.2 q.1.scanner.offset

theorem Halted.landed_of {i : Input} {p q : State V × List (Event V)} (h : Halted i p q)
    (hlanded : Landed p.2 p.1.scanner.offset) : Landed q.2 q.1.scanner.offset := by
  rcases h.landed with heq | hq
  · exact heq ▸ hlanded.mono h.events
  · exact hq

/-- A loop that goes on where something was matched. -/
theorem Halted.after {i : Input} {p q u : State V × List (Event V)} (h : Later i p q)
    (hlanded : Landed q.2 q.1.scanner.offset) (hu : Halted i q u) : Halted i p u :=
  ⟨h.trans hu.toLater, .inr (hu.landed_of hlanded)⟩

section
open Recorder

variable {skip : Recorder V Unit} (hskip : Passes skip)
include hskip

theorem halted_repeatBody {body : Recorder V Match} (hb : Filling body) (fuel : Nat) (first : Bool) :
    ∀ i p, Sound i p → p.1.scanner.skipping = false →
      wp (Recorder.repeatBody skip body fuel first) (fun _ => Halted i p) (fun _ _ => True) p := by
  induction fuel generalizing first with
  | zero => exact fun _ _ _ _ => trivial
  | succ fuel ih =>
    intro i p h hout
    unfold Recorder.repeatBody
    rw [wp_bind, wp_state]
    dsimp only
    split
    · exact ⟨.rfl h hout, .inl rfl⟩
    -- A round that begins at `p` or, after skipping, further on.
    have round : ∀ {q} {next : Match → Recorder V Unit}, next .miss = lift (Engine.moveTo p.1.scanner.cursor) →
        (∀ n, next (.hit n) = Recorder.repeatBody skip body fuel false) → Later i p q →
        wp (body >>= next) (fun _ => Halted i p) (fun _ _ => True) q := by
      intro q next hmiss hhit hq
      refine wp_then (hb i q hq.sound hq.outside) ?_
      rintro m t ⟨ht, hne⟩
      rcases m with (_ | n) | _
      · exact (hne rfl).elim
      · rw [hhit]
        have hlater := hq.trans ht.toLater
        exact wp_mono (ih false i t ht.sound ht.outside) (fun _ u hu => .after hlater (ht.landed n rfl) hu) fun _ _ h => h
      · rw [hmiss]
        exact ⟨(hq.trans ht.toLater).moveTo h.cursor, .inl rfl⟩
    cases first with
    | true => exact round rfl (fun _ => rfl) (.rfl h hout)
    | false => exact wp_then (hskip i p h hout) fun _ q hq => round rfl (fun _ => rfl) hq

theorem halted_repeatItems {separator item : Recorder V Match} (hp : Clear separator) (hi : Filling item) (fuel : Nat) :
    ∀ i p, Sound i p → p.1.scanner.skipping = false →
      wp (Recorder.repeatItems skip separator item fuel) (fun _ => Halted i p) (fun _ _ => True) p := by
  induction fuel with
  | zero => exact fun _ _ _ _ => trivial
  | succ fuel ih =>
    intro i p h hout
    unfold Recorder.repeatItems
    simp only [wp_bind, wp_lift, Engine.wp_here]
    refine wp_mono (hskip i p h hout) (fun _ q hq => ?_) fun _ _ h => h
    refine wp_mono (hp i q hq.sound hq.outside) (fun m t ht => ?_) fun _ _ h => h
    have hpt := hq.trans ht.toLater
    cases m with
    | miss => exact ⟨hpt.moveTo h.cursor, .inl rfl⟩
    | hit n =>
      refine wp_then (hskip i t ht.sound ht.outside) fun _ u hu => ?_
      refine wp_then (hi i u hu.sound hu.outside) ?_
      rintro m v ⟨hv, hne⟩
      have hpv := hpt.trans (hu.trans hv.toLater)
      rcases m with (_ | n) | _
      · exact (hne rfl).elim
      · exact wp_mono (ih i v hv.sound hv.outside) (fun _ w hw => .after hpv (hv.landed n rfl) hw) fun _ _ h => h
      · exact ⟨hpv.moveTo h.cursor, .inl rfl⟩

end

/-! ## Patterns -/

namespace Clear

open Recorder

theorem terminal {p : Pattern} {m : Engine V Match} (hp : p.isTerminal = true) (hm : PlacedMatch m) :
    ∀ i q, Sound i q → q.1.scanner.skipping = false → wp (Recorder.terminal p m) Lands (fun _ _ => True) q := by
  intro i q h hout
  unfold Recorder.terminal
  simp only [wp_bind, wp_state, wp_lift, wp_record, wp_pure]
  refine wp_mono (hm i q.1 h.input h.cursor) ?_ fun _ _ _ => trivial
  rintro a t ⟨-, -, hends⟩ n rfl
  exact ⟨p, q.1.scanner.offset, n, hp, hout ▸ List.mem_cons_self, hends.symm⟩

theorem runAction (rule : Rule V) (action : String) (c : Cursor) {n : Nat} {q : State V × List (Event V)}
    (h : Lands (.hit n) q) : wp (Recorder.runAction rule action c n) Lands (fun _ _ => True) q := by
  unfold Recorder.runAction
  simp only [wp_bind, wp_state, wp_record, wp_lift]
  unfold Engine.runAction
  simp only [wp_bind, wp_get]
  split
  · trivial
  · next f _ =>
    rcases f q.1.context (Engine.matchedSince c q.1.scanner) with ⟨verdict, context⟩
    cases verdict with
    | pass => exact h.still rfl (List.subset_cons_self _ _)
    | reject => exact .miss
    | fail cause => trivial

variable {rules : Array (Rule V)} {fuel : Nat} {rule : Rule V}

theorem performCall (hk : ∀ id, Clear (Recorder.invoke rules fuel id)) (call : Call) {i : Input}
    {p : State V × List (Event V)} (h : Sound i p) (hout : p.1.scanner.skipping = false) :
    wp (Recorder.performCall rules (Recorder.invoke rules fuel) rule call) Lands (fun _ _ => True) p := by
  unfold Recorder.performCall
  simp only [wp_bind, wp_state, wp_record, wp_lift]
  refine wp_mono (wp_and (Still.passArguments rule call p.1) (Unaltering.passArguments rule call p.1)) ?_
    fun _ _ _ => trivial
  rintro target t ⟨⟨-, hstays⟩, hsame⟩
  have ht : Sound i (t, .called rule call p.1.context :: p.2) :=
    (h.record (e := .called rule call p.1.context) trivial).state t hstays.input hstays.cursor
  refine wp_mono (hk target i _ ht (hsame.skipping.trans hout)) (fun m q hq => ?_) fun _ _ h => h
  refine wp_mono (Still.endCall rules rule call target m q.1) ?_ fun _ _ _ => trivial
  rintro m' u ⟨rfl, hu⟩
  exact hq.landed.still hu.cursor (List.Subset.refl _)

/-- Of a pattern only the last part is left to show. -/
theorem of_run {p : Pattern} (h : ∀ i q, Sound i q → q.1.scanner.skipping = false →
      wp (p.record rules fuel (Recorder.invoke rules fuel) rule) Lands (fun _ _ => True) q) :
    Clear (p.record rules fuel (Recorder.invoke rules fuel) rule) :=
  .of (passes_run rules fuel rule p) (.run rules fuel (Disciplined.invoke rules fuel) rule p) h

theorem filling {p : Pattern} (h : Clear (p.record rules fuel (Recorder.invoke rules fuel) rule))
    (hp : p.Fills rules fuel rule) : Filling (p.record rules fuel (Recorder.invoke rules fuel) rule) := by
  intro i q hq hout
  have hne : wp (p.run rules fuel (Engine.invoke rules fuel) rule) (fun m _ => m ≠ .hit 0) (fun _ _ => True) q.1 := by
    refine wp_of_outcome ?_ fun _ _ _ => trivial
    rintro m t hm rfl
    exact hp q.1 (hq.input ▸ hq.cursor) hout (by rw [hm])
  exact wp_mono (wp_and (h i q hq hout) ((Erases.run rules fuel (Erases.invoke rules fuel) rule p).wp_of hne))
    (fun _ _ h => h) fun _ _ _ => trivial

theorem run (hk : ∀ id, Clear (Recorder.invoke rules fuel id)) {p : Pattern} (hsolid : p.Solid rules fuel rule) :
    Clear (p.record rules fuel (Recorder.invoke rules fuel) rule) := by
  have hskip := passes_skip rules fuel
  induction p with
  | empty => exact of_run fun _ _ _ _ => .empty
  | one kind => exact of_run (terminal rfl (.matchOne kind))
  | text literal => exact of_run (terminal rfl (.matchText literal))
  | keyword word => exact of_run (terminal rfl (.matchKeyword word))
  | keywords selector words ih =>
    have ih := ih (hsolid.child List.mem_cons_self)
    refine of_run fun i p h hout => ?_
    simp only [Pattern.record, wp_bind, wp_lift, Engine.wp_here]
    refine wp_mono (ih i p h hout) (fun m q hq => ?_) fun _ _ h => h
    split
    · exact hq.landed
    · exact .miss
  | seq first second ih₁ ih₂ =>
    have ih₁ := ih₁ (hsolid.child List.mem_cons_self)
    have ih₂ := ih₂ (hsolid.child (List.mem_cons_of_mem _ List.mem_cons_self))
    refine of_run fun i p h hout => ?_
    simp only [Pattern.record, wp_bind, wp_lift, Engine.wp_here]
    refine wp_mono (ih₁ i p h hout) (fun m q hq => ?_) fun _ _ h => h
    cases m with
    | miss => exact .miss
    | hit n =>
      simp only [wp_bind, wp_lift, Engine.wp_here]
      refine wp_mono (hskip i q hq.sound hq.outside) (fun _ t ht => ?_) fun _ _ h => h
      refine wp_mono (ih₂ i t ht.sound ht.outside) (fun m u hu => ?_) fun _ _ h => h
      rcases m with (_ | k) | _
      · -- The first part ends the match, and its length is that of the match.
        intro n' hn'
        have hlength : q.1.scanner.offset - p.1.scanner.offset = n' + 1 := Match.hit.inj hn'
        have hends : q.1.scanner.offset = p.1.scanner.offset + n := hq.ended.2
        obtain rfl : n = n' + 1 := by omega
        exact (hq.landed n' rfl).mono (ht.trans hu.toLater).events
      · exact fun _ _ => hu.landed k rfl
      · exact .miss
  | alt first second ih₁ ih₂ =>
    have ih₁ := ih₁ (hsolid.child List.mem_cons_self)
    have ih₂ := ih₂ (hsolid.child (List.mem_cons_of_mem _ List.mem_cons_self))
    refine of_run fun i p h hout => ?_
    simp only [Pattern.record, wp_bind, wp_lift, Engine.wp_here]
    refine wp_mono (ih₁ i p h hout) (fun m q hq => ?_) fun _ _ h => h
    cases m with
    | hit n => exact hq.landed
    | miss =>
      exact wp_mono (ih₂ i _ (hq.sound.moveTo h.cursor) hq.outside) (fun _ _ ht => ht.landed) fun _ _ h => h
  | diff subject excluded ih₁ _ =>
    have ih₁ := ih₁ (hsolid.child List.mem_cons_self)
    refine of_run fun i p h hout => ?_
    simp only [Pattern.record, wp_bind, wp_lift, Engine.wp_here]
    refine wp_mono (ih₁ i p h hout) (fun m q hq => ?_) fun _ _ h => h
    cases m with
    | miss => exact .miss
    | hit n =>
      simp only [wp_bind, wp_lift, Engine.wp_here, Engine.wp_moveTo]
      refine wp_mono (passes_run rules fuel rule excluded i _ (hq.sound.moveTo h.cursor) hq.outside) (fun m t ht => ?_)
        fun _ _ h => h
      split
      · exact .miss
      · rintro k ⟨⟩
        exact (hq.landed k rfl).mono ht.events
  | list item separator ih₁ ih₂ =>
    have ih₁ := (ih₁ (hsolid.child List.mem_cons_self)).filling (hsolid _ item .self rfl)
    have ih₂ := ih₂ (hsolid.child (List.mem_cons_of_mem _ List.mem_cons_self))
    refine of_run fun i p h hout => ?_
    simp only [Pattern.record, wp_bind, wp_lift, Engine.wp_here]
    refine wp_mono (ih₁ i p h hout) ?_ fun _ _ h => h
    rintro m q ⟨hq, hne⟩
    rcases m with (_ | n) | _
    · exact (hne rfl).elim
    · refine wp_then (halted_repeatItems hskip ih₂ ih₁ fuel i q hq.sound hq.outside) fun _ t ht _ _ => ?_
      exact ht.landed_of (hq.landed n rfl)
    · exact .miss
  | opt subject ih =>
    have ih := ih (hsolid.child List.mem_cons_self)
    refine of_run fun i p h hout => ?_
    simp only [Pattern.record, wp_bind, wp_lift, Engine.wp_here]
    refine wp_mono (ih i p h hout) (fun m q hq => ?_) fun _ _ h => h
    cases m with
    | hit n => exact hq.landed
    | miss => exact .empty
  | many subject ih =>
    have ih := (ih (hsolid.child List.mem_cons_self)).filling (hsolid _ subject .self rfl)
    refine of_run fun i p h hout => ?_
    simp only [Pattern.record, wp_bind, wp_lift, Engine.wp_here]
    refine wp_mono (halted_repeatBody hskip ih fuel true i p h hout) (fun _ q hq n hn => ?_) fun _ _ h => h
    have hlength : q.1.scanner.offset - p.1.scanner.offset = n + 1 := Match.hit.inj hn
    exact hq.landed.resolve_left (by omega)
  | many1 subject ih =>
    have ih := (ih (hsolid.child List.mem_cons_self)).filling (hsolid _ subject .self rfl)
    refine of_run fun i p h hout => ?_
    simp only [Pattern.record, wp_bind, wp_lift, Engine.wp_here]
    refine wp_mono (ih i p h hout) ?_ fun _ _ h => h
    rintro m q ⟨hq, hne⟩
    rcases m with (_ | n) | _
    · exact (hne rfl).elim
    · refine wp_then (halted_repeatBody hskip ih fuel false i q hq.sound hq.outside) fun _ t ht _ _ => ?_
      exact ht.landed_of (hq.landed n rfl)
    · exact .miss
  | expect subject ih =>
    have ih := ih (hsolid.child List.mem_cons_self)
    refine of_run fun i p h hout => ?_
    simp only [Pattern.record, wp_bind]
    refine wp_mono (ih i p h hout) (fun m q hq => ?_) fun _ _ h => h
    cases m with
    | hit n => exact hq.landed
    | miss => trivial
  | token subject ih =>
    have ih := ih (hsolid.child List.mem_cons_self)
    refine of_run fun i p h hout => ?_
    simp only [Pattern.record, wp_bracket]
    exact wp_mono (ih i _ (h.state _ rfl rfl) hout) (fun _ _ hq => hq.landed) fun _ _ h => h
  | lookahead subject ih =>
    refine of_run fun i p h hout => ?_
    simp only [Pattern.record, wp_bind, wp_lift, Engine.wp_here, Engine.wp_moveTo, wp_pure]
    refine wp_mono (passes_run rules fuel rule subject i p h hout) (fun m q _ => ?_) fun _ _ h => h
    cases m with
    | hit => exact .empty
    | miss => exact .miss
  | notAhead subject ih =>
    refine of_run fun i p h hout => ?_
    simp only [Pattern.record, wp_bind, wp_lift, Engine.wp_here, Engine.wp_moveTo, wp_pure]
    refine wp_mono (passes_run rules fuel rule subject i p h hout) (fun m q _ => ?_) fun _ _ h => h
    cases m with
    | hit => exact .miss
    | miss => exact .empty
  | act action subject ih =>
    have ih := ih (hsolid.child List.mem_cons_self)
    refine of_run fun i p h hout => ?_
    simp only [Pattern.record, wp_bind, wp_lift, Engine.wp_here]
    refine wp_mono (ih i p h hout) (fun m q hq => ?_) fun _ _ h => h
    cases m with
    | miss => exact .miss
    | hit n => exact runAction rule action _ hq.landed
  | call c => exact of_run fun i p h hout => performCall hk c h hout

theorem enter_skipping (rule : Rule V) (s : State V) :
    wp (Engine.enter rule) (fun _ t => t.scanner.skipping = s.scanner.skipping) (fun _ _ => True) s := by
  unfold Engine.enter
  rw [wp_bind, wp_get]
  split
  · trivial
  · obtain ⟨trace, henter⟩ := s.scanner.enterRule_eq rule.qualifiedName
    show (s.scanner.enterRule rule.qualifiedName).skipping = _
    rw [henter]

theorem matchRule {body : Recorder V Match} (hb : Clear body) (hpass : Passes (Recorder.matchRule rule body))
    (hd : Disciplined body) : Clear (Recorder.matchRule rule body) := by
  refine .of hpass (.matchRule rule hd) fun i p h hout => ?_
  unfold Recorder.matchRule
  simp only [wp_bind, wp_state, wp_attempt, wp_lift]
  refine wp_mono (wp_and (Still.enter rule p.1) (enter_skipping rule p.1)) ?_ fun _ _ _ => trivial
  rintro _ t ⟨⟨-, hstays⟩, hsame⟩
  have ht : Sound i (t, p.2) := h.state t hstays.input hstays.cursor
  -- Leaving the rule does not move and ends with the match of the definition.
  have leaves : ∀ (m : Match) (q : State V × List (Event V)), Lands m q →
      wp (lift (Engine.leave rule p.1 (.ok m))) Lands (fun _ _ => True) q := by
    intro m q hq
    rw [wp_lift]
    refine wp_mono (Still.leave rule p.1 (.ok m) q.1) ?_ fun _ _ _ => trivial
    rintro m' u ⟨hm, hu⟩
    cases hm
    exact hq.still hu.cursor (List.Subset.refl _)
  refine wp_mono (hb i _ ht (hsame.trans hout)) (fun m q hq => ?_) fun e q _ => ?_
  · cases m with
    | miss => exact leaves .miss q .miss
    | hit n =>
      exact leaves (.hit n) (q.1, .matched rule q.1.context :: q.2)
        (hq.landed.still rfl (List.subset_cons_self _ _))
  · refine wp_mono (Still.leave rule p.1 (.error e) q.1) ?_ fun _ _ _ => trivial
    rintro m u ⟨hm, -⟩
    cases hm

theorem invoke (hsolid : ∀ (id : RuleId) rule, rules[id]? = some rule → ∀ fuel, rule.definition.Solid rules fuel rule)
    (fuel : Nat) (id : RuleId) : Clear (Recorder.invoke rules fuel id) := by
  have hpass := passes_invoke rules fuel id
  induction fuel generalizing id with
  | zero => exact fun _ _ _ _ => trivial
  | succ fuel ih =>
    unfold Recorder.invoke at hpass ⊢
    cases hrule : rules[id]? with
    | none => exact fun _ _ _ _ => trivial
    | some rule =>
      rw [hrule] at hpass
      exact matchRule (run (fun id => ih id (passes_invoke rules fuel id)) (hsolid id rule hrule fuel)) hpass
        (.run rules fuel (Disciplined.invoke rules fuel) rule _)

end Clear

/-! ## Domains -/

/-- An action is the last thing that happens where it runs. -/
theorem Recorder.acted_runAction (rule : Rule V) (action : String) (c : Cursor) (n : Nat) (t : State V)
    (events : List (Event V)) : (outcome (Recorder.runAction rule action c n) (t, events)).2.2 =
      .acted rule action t.context (Engine.matchedSince c t.scanner) :: events := rfl

/-- Nothing that is repeated anywhere in the domain ever matches nothing, outside the skip rule. -/
def Domain.Solid (d : Domain V) : Prop :=
  ∀ (id : RuleId) rule, d.rules[id]? = some rule → ∀ p q, rule.definition.Has p → p.repeated? = some q →
    ∀ s t : State V, s.scanner.cursor.In s.scanner.input → s.scanner.skipping = false →
      ¬ q.Ends d.rules rule s (.ok (.hit 0)) t

theorem Domain.Solid.definition {d : Domain V} (h : d.Solid) {id : RuleId} {rule : Rule V}
    (hrule : d.rules[id]? = some rule) (fuel : Nat) : rule.definition.Solid d.rules fuel rule :=
  fun n q hn hq s hs hout hempty => h id rule hrule n q hn hq s _ hs hout ⟨fuel, Prod.ext hempty rfl⟩

theorem Pattern.Solid.has {rules : Array (Rule V)} {fuel : Nat} {rule : Rule V} {p q : Pattern}
    (h : p.Solid rules fuel rule) (hq : p.Has q) : q.Solid rules fuel rule := by
  induction hq with
  | self => exact h
  | child hq _ ih => exact ih (h.child hq)

/-- A match outside the skip rule that is not empty ends where a terminal outside the skip rule has ended, and what
an action is given ends there too. -/
theorem match_ends_in_terminal {d : Domain V} (hsolid : d.Solid) {id : RuleId} {rule : Rule V}
    (hrule : d.rules[id]? = some rule) {p : Pattern} (hp : rule.definition.Has p) (fuel : Nat) (s : State V)
    (hs : s.scanner.cursor.In s.scanner.input) (hout : s.scanner.skipping = false) :
    ∃ events, outcome (p.record d.rules fuel (Recorder.invoke d.rules fuel) rule) (s, []) =
        ((outcome (p.run d.rules fuel (Engine.invoke d.rules fuel) rule) s).1,
          (outcome (p.run d.rules fuel (Engine.invoke d.rules fuel) rule) s).2, events) ∧
      (∀ n t, outcome (p.run d.rules fuel (Engine.invoke d.rules fuel) rule) s = (.ok (.hit n), t) → 0 < n →
        Landed events t.scanner.offset) ∧
      ∀ action subject, p = .act action subject → ∀ n t,
        outcome (subject.run d.rules fuel (Engine.invoke d.rules fuel) rule) s = (.ok (.hit n), t) →
        let matched := Engine.matchedSince s.scanner.cursor t.scanner
        ∃ earlier, events = .acted rule action t.context matched :: earlier ∧
          (matched.text = "" ∨ Landed earlier matched.span.stop) := by
  have hpsolid := (hsolid.definition hrule fuel).has hp
  have hclear : ∀ {q : Pattern}, q.Solid d.rules fuel rule →
      Clear (q.record d.rules fuel (Recorder.invoke d.rules fuel) rule) :=
    fun hq => .run (.invoke (fun _ _ hrule => hsolid.definition hrule) fuel) hq
  have herases := Erases.run d.rules fuel (Erases.invoke d.rules fuel) rule
  have hsound : Sound s.scanner.input (s, ([] : List (Event V))) := ⟨rfl, hs, nofun⟩
  obtain ⟨events, hevents⟩ := herases p s []
  refine ⟨events, hevents, fun n t hrun hn => ?_, ?_⟩
  · obtain ⟨n, rfl⟩ := Nat.exists_eq_succ_of_ne_zero (Nat.ne_of_gt hn)
    rw [hrun] at hevents
    exact (wp_ok (hclear hpsolid _ _ hsound hout) hevents).landed n rfl
  · rintro action subject rfl n t hrun matched
    obtain ⟨earlier, hearlier⟩ := herases subject s []
    rw [hrun] at hearlier
    have hcleared := wp_ok (hclear (hpsolid.child List.mem_cons_self) _ _ hsound hout) hearlier
    refine ⟨earlier, ?_, ?_⟩
    · rw [← Recorder.acted_runAction rule action s.scanner.cursor n t earlier]
      refine (congrArg (·.2.2) hevents).symm.trans ?_
      unfold Pattern.record
      rw [outcome_bind]
      show (outcome (subject.record d.rules fuel (Recorder.invoke d.rules fuel) rule >>= _) (s, [])).2.2 = _
      rw [outcome_bind, hearlier]
    · cases n with
      | zero =>
        have hoffset : t.scanner.offset = s.scanner.offset := hcleared.ended.2
        refine .inl ?_
        show String.ofList (s.scanner.cursor.textTo t.scanner.offset) = ""
        rw [hoffset]
        exact congrArg String.ofList Cursor.Spans.rfl.textTo
      | succ n => exact .inr (hcleared.landed n rfl)

theorem Pattern.one_not_empty {rules : Array (Rule V)} {rule : Rule V} {kind : CharKind} {s t : State V} :
    ¬ Pattern.Ends rules rule (.one kind) s (.ok (.hit 0)) t := by
  rintro ⟨fuel, hends⟩
  have hlength : wp (Engine.matchOne kind) (fun m _ => m ≠ .hit 0) (fun _ _ => True) s := by
    unfold Engine.matchOne
    rw [wp_bind, Engine.wp_here]
    split
    · next c _ _ =>
      split
      · exact fun h => Nat.ne_of_gt c.utf8Size_pos (Match.hit.inj h)
      · exact nofun
    · exact nofun
  exact wp_ok hlength hends rfl

/-- It is enough that only single chars are repeated. -/
theorem Domain.solid_of_chars {d : Domain V} (kinds : List CharKind)
    (h : (d.rules.all fun rule => rule.definition.nodes.all fun p => p.repeated?.all fun q =>
      kinds.any (q = .one ·)) = true) : d.Solid := by
  intro id rule hrule p q hp hq s t _ _
  have hnodes := Array.all_eq_true_iff_forall_mem.1 h rule (Array.mem_of_getElem? hrule)
  have hchars := List.all_eq_true.1 hnodes p (Pattern.mem_nodes_iff.2 hp)
  rw [hq, Option.all_some] at hchars
  obtain ⟨kind, -, hkind⟩ := List.any_eq_true.1 hchars
  obtain rfl := of_decide_eq_true hkind
  exact Pattern.one_not_empty

/-- A number with spaces between its digits and behind them. -/
theorem match_ends_in_terminal_before_spaces :
    let number := Pattern.act "read" (.many1 (.one .digit))
    let r : Registry Unit := {
      grammars := [{
        name := "G"
        rules := [
          { name := "Number", definition := number, actions := [("read", fun ctx _ => (.pass, ctx))] },
          { name := "Spaces", definition := .many (.one .space) }]
        start := some "Number"
        skip := some "Spaces" }]
      index := [("G", 0)] }
    ∃ d g rule, r.link = .ok d ∧ d.grammars = [g] ∧ d.rules[0]? = some rule ∧ d.Solid ∧
      let run := outcome (number.record d.rules 5 (Recorder.invoke d.rules 5) rule)
        (Domain.startState g "4 2  " {} .empty, [])
      run.1.toOption = some (.hit 3) ∧ Landed run.2.2 run.2.1.scanner.offset := by
  intro number r
  have ends : ∀ (d : Domain Unit) (rule : Rule Unit) (s : State Unit), d.Solid → d.rules[0]? = some rule →
      rule.definition = number → s.scanner.cursor.In s.scanner.input → s.scanner.skipping = false →
      let run := outcome (number.record d.rules 5 (Recorder.invoke d.rules 5) rule) (s, [])
      run.1.toOption = some (.hit 3) →
      d.Solid ∧ run.1.toOption = some (.hit 3) ∧ Landed run.2.2 run.2.1.scanner.offset := by
    intro d rule s hsolid hrule hdef hs hout run hhit
    refine ⟨hsolid, hhit, ?_⟩
    obtain ⟨events, hrun, hlanded, -⟩ := match_ends_in_terminal hsolid hrule (p := number) (hdef ▸ .self) 5 s hs hout
    rcases hends : outcome (number.run d.rules 5 (Engine.invoke d.rules 5) rule) s with ⟨e | m, t⟩
    · rw [hends] at hrun
      simp only [run, hrun, Except.toOption, reduceCtorEq] at hhit
    · rw [hends] at hrun
      simp only [run, hrun, Except.toOption, Option.some.injEq] at hhit ⊢
      subst hhit
      exact hlanded 3 t hends (by decide)
  exact ⟨_, _, _, rfl, rfl, rfl, ends _ _ _ (Domain.solid_of_chars [.digit, .space] (by decide +kernel)) rfl rfl
    (Scanner.new_whole_in _ _ _) rfl (by decide +kernel)⟩

end PegFront
