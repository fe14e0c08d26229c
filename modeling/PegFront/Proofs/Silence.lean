import PegFront.Proofs.Adequacy

/-!
# Silence

While the skip rule runs no failure is noted, and the errors of a run are only those its parts can raise: `Hushed`
says so of a part of the skip rule, and there is one lemma for each operator that such a part is made of.
-/

namespace PegFront

open Engine (here moveTo missed hitFrom)

variable {V α β : Type}

section
variable (i : Input) (farthest : Nat) (expected : List String) (P : ParseError → Prop)

/-- The skip rule is running, at a place of the input. -/
structure Muted (s : State V) : Prop where
  input : s.scanner.input = i
  place : s.scanner.cursor.In i
  skipping : s.scanner.skipping = true
  farthest : s.scanner.farthest = farthest
  expected : s.scanner.expected = expected

/-- The computation notes nothing while the skip rule is running, and raises only errors of one kind. -/
def Hushed (A : α → Prop) (m : Engine V α) : Prop :=
  ∀ s, Muted i farthest expected s → wp m (fun a t => A a ∧ Muted i farthest expected t)
    (fun e _ => ∀ error, e = .error error → P error) s

end

section
variable {i : Input} {farthest : Nat} {expected : List String} {P : ParseError → Prop} {A : α → Prop} {B : β → Prop}
  {s : State V}

theorem Muted.moveTo (h : Muted i farthest expected s) {c : Cursor} (hc : c.In i) :
    Muted i farthest expected { s with scanner := s.scanner.moveTo c } :=
  ⟨h.input, hc, h.skipping, h.farthest, h.expected⟩

theorem Muted.note (h : Muted i farthest expected s) (what : String) : s.scanner.note what = s.scanner := by
  unfold Scanner.note
  rw [h.skipping]
  rfl

theorem Muted.canSkip (h : Muted i farthest expected s) : s.scanner.canSkip = false := by
  simp [Scanner.canSkip, h.skipping]

namespace Hushed

theorem bind {m : Engine V α} {f : α → Engine V β} (h : Hushed i farthest expected P A m)
    (hf : ∀ a, A a → Hushed i farthest expected P B (f a)) : Hushed i farthest expected P B (m >>= f) :=
  fun s hs => wp_then (h s hs) fun a t ht => hf a ht.1 t ht.2

theorem pure {a : α} (h : A a) : Hushed i farthest expected P A (pure a : Engine V α) := fun _ hs => ⟨h, hs⟩

theorem here : Hushed i farthest expected P (·.In i) (here : Engine V Cursor) := by
  intro s hs
  rw [Engine.wp_here]
  exact ⟨hs.place, hs⟩

theorem moveTo {c : Cursor} (hc : c.In i) :
    Hushed i farthest expected P (fun _ => True) (moveTo c : Engine V Unit) := fun _ hs => ⟨trivial, hs.moveTo hc⟩

theorem missed (what : String) : Hushed i farthest expected P (fun _ => True) (missed what : Engine V Match) := by
  intro s hs
  rw [Engine.wp_missed, hs.note]
  exact ⟨trivial, hs⟩

theorem hitFrom (c : Cursor) : Hushed i farthest expected P (fun _ => True) (hitFrom c : Engine V Match) :=
  bind here fun _ _ => pure trivial

theorem matchOne (kind : CharKind) :
    Hushed i farthest expected P (fun _ => True) (Engine.matchOne kind : Engine V Match) := by
  refine bind here fun c hc => ?_
  split
  · next ch after hnext =>
    split
    · exact bind (moveTo (hc.next hnext).1) fun _ _ => pure trivial
    · exact missed _
  · exact missed _

theorem matchText (literal : String) :
    Hushed i farthest expected P (fun _ => True) (Engine.matchText literal : Engine V Match) := by
  refine bind here fun c hc => ?_
  split
  · next after hafter => exact bind (moveTo (hc.after hafter).1) fun _ _ => pure trivial
  · exact missed _

theorem skip (invoke : RuleId → Engine V Match) : Hushed i farthest expected P (fun _ => True) (Engine.skip invoke) :=
  fun _ hs => Engine.wp_skip_of_not hs.canSkip ⟨trivial, hs⟩

theorem repeatBody {skipping : Engine V Unit} {body : Engine V Match}
    (hs : Hushed i farthest expected P (fun _ => True) skipping)
    (hb : Hushed i farthest expected P (fun _ => True) body) (fuel : Nat) (first : Bool) :
    Hushed i farthest expected P (fun _ => True) (Engine.repeatBody skipping body fuel first) := by
  induction fuel generalizing first with
  | zero => exact fun _ _ _ h => nomatch h
  | succ fuel ih =>
    intro s hmuted
    unfold Engine.repeatBody
    rw [wp_bind, wp_get]
    dsimp only
    have hround : ∀ {next : Match → Engine V Unit}, next .miss = Engine.moveTo s.scanner.cursor →
        (∀ n, next (.hit n) = Engine.repeatBody skipping body fuel false) →
        Hushed i farthest expected P (fun _ => True) (body >>= next) := by
      intro next hmiss hhit
      refine bind hb fun r _ => ?_
      cases r with
      | miss => exact hmiss ▸ moveTo hmuted.place
      | hit n => exact hhit n ▸ ih false
    split
    · exact ⟨trivial, hmuted⟩
    · cases first with
      | true => exact hround rfl (fun _ => rfl) s hmuted
      | false => exact bind hs (fun _ _ => hround rfl fun _ => rfl) s hmuted

theorem token {m : Engine V α} (h : Hushed i farthest expected P A m) :
    Hushed i farthest expected P A (Engine.bracket (·.beginToken) (·.endToken) m) := by
  intro s hs
  rw [Engine.wp_bracket]
  refine wp_mono (h _ ⟨hs.input, hs.place, hs.skipping, hs.farthest, hs.expected⟩) ?_ fun _ _ he => he
  intro a t ht
  exact ⟨ht.1, ht.2.input, ht.2.place, ht.2.skipping, ht.2.farthest, ht.2.expected⟩

/-! ### Patterns without hooks -/

section
variable {rules : Array (Rule V)} {fuel : Nat} {invoke : RuleId → Engine V Match} {rule : Rule V} {p q : Pattern}

/-- A call that passes nothing and brings nothing back. -/
theorem call {c : Call} {id : RuleId} {callee : Rule V} (ht : c.target = some id) (ha : c.arity = 0)
    (hp : rule.preCall? c.label = none) (hc : rules[id]? = some callee) (hv : callee.hasValue = false)
    (h : Hushed i farthest expected P (fun _ => True) (invoke id)) :
    Hushed i farthest expected P (fun _ => True) ((Pattern.call c).run rules fuel invoke rule) := by
  intro s hs
  have hargs : rule.argumentsOf c s.context = [] := by simp only [Rule.argumentsOf, hp]
  have hpass : wp (Engine.passArguments rule c) (fun target t => target = id ∧ Muted i farthest expected t)
      (fun e _ => ∀ error, e = .error error → P error) s := by
    unfold Engine.passArguments
    simp only [wp_bind, wp_get, ht, hargs, ha, List.length_nil, ne_eq, not_true_eq_false, if_false, Engine.wp_setStack,
      wp_pure]
    exact ⟨trivial, hs.input, hs.place, hs.skipping, hs.farthest, hs.expected⟩
  refine wp_then hpass ?_
  rintro _ t ⟨rfl, htm⟩
  refine wp_then (h t htm) fun m u hu => ?_
  unfold Engine.endCall
  rw [hc]
  cases m with
  | miss => exact hu
  | hit n =>
    simp only [Engine.takeUpValue, hv, Bool.false_eq_true, if_false, wp_bind, wp_pure]
    exact hu

theorem seq (hp : Hushed i farthest expected P (fun _ => True) (p.run rules fuel invoke rule))
    (hq : Hushed i farthest expected P (fun _ => True) (q.run rules fuel invoke rule)) :
    Hushed i farthest expected P (fun _ => True) ((Pattern.seq p q).run rules fuel invoke rule) := by
  refine bind here fun c hc => bind hp fun r _ => ?_
  cases r with
  | miss => exact pure trivial
  | hit n =>
    refine bind here fun d hd => bind (skip invoke) fun _ _ => bind hq fun r _ => ?_
    rcases r with (_ | n) | _
    · exact bind (moveTo hd) fun _ _ => hitFrom c
    · exact hitFrom c
    · exact bind (moveTo hc) fun _ _ => pure trivial

theorem alt (hp : Hushed i farthest expected P (fun _ => True) (p.run rules fuel invoke rule))
    (hq : Hushed i farthest expected P (fun _ => True) (q.run rules fuel invoke rule)) :
    Hushed i farthest expected P (fun _ => True) ((Pattern.alt p q).run rules fuel invoke rule) := by
  refine bind here fun c hc => bind hp fun r _ => ?_
  cases r with
  | hit n => exact pure trivial
  | miss => exact bind (moveTo hc) fun _ _ => hq

theorem diff (hp : Hushed i farthest expected P (fun _ => True) (p.run rules fuel invoke rule))
    (hq : Hushed i farthest expected P (fun _ => True) (q.run rules fuel invoke rule)) :
    Hushed i farthest expected P (fun _ => True) ((Pattern.diff p q).run rules fuel invoke rule) := by
  refine bind here fun c hc => bind hp fun r _ => ?_
  cases r with
  | miss => exact bind (moveTo hc) fun _ _ => pure trivial
  | hit n =>
    refine bind here fun d hd => bind (moveTo hc) fun _ _ => bind hq fun r _ => ?_
    split
    · exact bind (moveTo hc) fun _ _ => pure trivial
    · exact bind (moveTo hd) fun _ _ => pure trivial

theorem opt (hp : Hushed i farthest expected P (fun _ => True) (p.run rules fuel invoke rule)) :
    Hushed i farthest expected P (fun _ => True) ((Pattern.opt p).run rules fuel invoke rule) := by
  refine bind here fun c hc => bind hp fun r _ => ?_
  cases r with
  | hit n => exact pure trivial
  | miss => exact bind (moveTo hc) fun _ _ => pure trivial

theorem many (hp : Hushed i farthest expected P (fun _ => True) (p.run rules fuel invoke rule)) :
    Hushed i farthest expected P (fun _ => True) ((Pattern.many p).run rules fuel invoke rule) :=
  bind here fun c _ => bind (repeatBody (skip invoke) hp fuel true) fun _ _ => hitFrom c

theorem many1 (hp : Hushed i farthest expected P (fun _ => True) (p.run rules fuel invoke rule)) :
    Hushed i farthest expected P (fun _ => True) ((Pattern.many1 p).run rules fuel invoke rule) := by
  refine bind here fun c _ => bind hp fun r _ => ?_
  cases r with
  | miss => exact pure trivial
  | hit n => exact bind (repeatBody (skip invoke) hp fuel false) fun _ _ => hitFrom c

/-- A rule without arguments and without a value. -/
theorem matchRule {body : Engine V Match} (ha : rule.arity = 0) (hv : rule.hasValue = false)
    (hb : Hushed i farthest expected P (fun _ => True) body) :
    Hushed i farthest expected P (fun _ => True) (Engine.matchRule rule body) := by
  intro s hs
  have henter : wp (Engine.enter rule) (fun _ t => Muted i farthest expected t)
      (fun e _ => ∀ error, e = .error error → P error) s := by
    unfold Engine.enter
    simp only [wp_bind, wp_get, ha, Stack.popN?, Nat.zero_le, if_true, Engine.wp_setStack, Engine.wp_setContext,
      Engine.wp_onScanner]
    obtain ⟨trace, h⟩ := s.scanner.enterRule_eq rule.qualifiedName
    rw [h]
    exact ⟨hs.input, hs.place, hs.skipping, hs.farthest, hs.expected⟩
  refine (wp_bind _ _).2 (wp_then henter fun _ t ht => (wp_bind _ _).2 ((Engine.wp_attempt _).2 ?_))
  refine wp_mono (hb t ht) (fun r u hu => ?_) fun e u he => ?_
  · unfold Engine.leave
    simp only [wp_bind, Engine.wp_onScanner]
    obtain ⟨trace, h⟩ := u.scanner.leaveRule_eq rule.qualifiedName s.scanner.cursor r.isHit
    rw [h]
    have hleft : ∀ context, Muted i farthest expected
        (⟨{ u.scanner with trace, ruleDepth := u.scanner.ruleDepth - 1 }, u.stack, context⟩ : State V) :=
      fun _ => ⟨hu.2.input, hu.2.place, hu.2.skipping, hu.2.farthest, hu.2.expected⟩
    cases r with
    | miss => exact ⟨trivial, hleft _⟩
    | hit n =>
      simp only [Engine.pushValue, hv, Bool.false_eq_true, if_false, wp_bind, wp_pure, Engine.wp_setContext]
      exact ⟨trivial, hleft _⟩
  · exact he

end

end Hushed

/-- Skipping notes nothing. -/
theorem skip_silent {invoke : RuleId → Engine V Match} {id : RuleId} (hid : s.scanner.skipRule = some id)
    (hs : s.scanner.cursor.In s.scanner.input)
    (h : Hushed s.scanner.input s.scanner.farthest s.scanner.expected P (fun _ => True) (invoke id)) :
    wp (Engine.skip invoke)
      (fun _ t => t.scanner.farthest = s.scanner.farthest ∧ t.scanner.expected = s.scanner.expected)
      (fun e _ => ∀ error, e = .error error → P error) s := by
  unfold Engine.skip
  rw [wp_bind, wp_get, hid]
  dsimp only
  split
  · rw [wp_bind, Engine.wp_attempt, Engine.wp_bracket]
    refine wp_mono (h { s with scanner := s.scanner.setSkipping true } ⟨rfl, hs, rfl, rfl, rfl⟩) ?_ ?_
    · rintro r t ⟨-, ht⟩
      unfold Engine.endSkip
      cases r with
      | miss => exact ⟨ht.farthest, ht.expected⟩
      | hit n => exact ⟨ht.farthest, ht.expected⟩
    · exact fun _ _ he => he
  · exact ⟨rfl, rfl⟩

end

end PegFront
