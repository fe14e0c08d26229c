import Mathlib.Order.Filter.AtTopBot.Basic
import PegFront.Proofs.Wp

/-!
# Fuel

Fuel only says how long a run may go on. With more of it a run that did not use up its fuel does all the same
and ends in the same state (`Extends`). So what a run comes to can be told without fuel: `Pattern.Ends`, `SkipEnds`
and `RuleEnds` say that it ends so with enough of it.
-/

namespace PegFront

variable {V α β : Type}

/-- Unless `m` uses up its fuel, `m'` does the same. -/
def Extends (m m' : Engine V α) : Prop :=
  ∀ s, (outcome m s).1 = .error .exhausted ∨ outcome m' s = outcome m s

namespace Extends

theorem refl (m : Engine V α) : Extends m m := fun _ => .inr rfl

theorem exhausted (m : Engine V α) : Extends (throw .exhausted) m := fun _ => .inl rfl

theorem bind {m m' : Engine V α} {f f' : α → Engine V β} (h : Extends m m') (hf : ∀ a, Extends (f a) (f' a)) :
    Extends (m >>= f) (m' >>= f') := by
  intro s
  rw [outcome_bind, outcome_bind]
  rcases h s with h | h
  · rcases hm : outcome m s with ⟨e | a, t⟩
    · rw [hm] at h
      cases h
      exact .inl rfl
    · rw [hm] at h
      cases h
  · rw [h]
    rcases outcome m s with ⟨e | a, t⟩
    · exact .inr rfl
    · exact hf a t

/-- A step that is the same on both sides. -/
theorem step {m : Engine V α} {f f' : α → Engine V β} (hf : ∀ a, Extends (f a) (f' a)) :
    Extends (m >>= f) (m >>= f') := bind (refl m) hf

/-- Going on after a part of a run that may have stopped, as long as lack of fuel stops all of it. -/
theorem attempt {m m' : Engine V α} {f : Except Stop α → Engine V β} (h : Extends m m')
    (hf : ∀ s, (outcome (f (.error .exhausted)) s).1 = .error .exhausted) :
    Extends (Engine.attempt m >>= f) (Engine.attempt m' >>= f) := by
  intro s
  rw [outcome_bind, outcome_bind, outcome_attempt, outcome_attempt]
  rcases h s with h | h
  · rw [h]
    exact .inl (hf _)
  · rw [h]
    exact .inr rfl

theorem bracket (before after : Scanner → Scanner) {m m' : Engine V α} (h : Extends m m') :
    Extends (Engine.bracket before after m) (Engine.bracket before after m') :=
  step fun _ => attempt h fun _ => rfl

section
variable {k k' : RuleId → Engine V Match} (hk : ∀ id, Extends (k id) (k' id))
include hk

theorem skip : Extends (Engine.skip k) (Engine.skip k') := by
  refine step fun s => ?_
  cases s.scanner.skipRule with
  | none => exact refl _
  | some id =>
    dsimp only
    split
    · exact attempt (bracket _ _ (hk id)) fun _ => rfl
    · exact refl _

omit hk

theorem repeatBody {skip skip' : Engine V Unit} {body body' : Engine V Match} (hs : Extends skip skip')
    (hb : Extends body body') {fuel fuel' : Nat} (hle : fuel ≤ fuel') (first : Bool) :
    Extends (Engine.repeatBody skip body fuel first) (Engine.repeatBody skip' body' fuel' first) := by
  induction fuel generalizing fuel' first with
  | zero => exact exhausted _
  | succ fuel ih =>
    obtain ⟨extra, rfl⟩ := Nat.exists_eq_add_of_le' hle
    have ih := ih (Nat.le_add_left fuel extra) false
    refine step fun s => ?_
    split
    · exact refl _
    cases first with
    | true =>
      refine bind hb fun m => ?_
      cases m with
      | miss => exact refl _
      | hit n => exact ih
    | false =>
      refine bind hs fun _ => bind hb fun m => ?_
      cases m with
      | miss => exact refl _
      | hit n => exact ih

theorem repeatItems {skip skip' : Engine V Unit} {separator separator' item item' : Engine V Match}
    (hs : Extends skip skip') (hp : Extends separator separator') (hi : Extends item item') {fuel fuel' : Nat}
    (hle : fuel ≤ fuel') :
    Extends (Engine.repeatItems skip separator item fuel) (Engine.repeatItems skip' separator' item' fuel') := by
  induction fuel generalizing fuel' with
  | zero => exact exhausted _
  | succ fuel ih =>
    obtain ⟨extra, rfl⟩ := Nat.exists_eq_add_of_le' hle
    refine step fun save => bind hs fun _ => bind hp fun m => ?_
    cases m with
    | miss => exact refl _
    | hit n =>
      refine bind hs fun _ => bind hi fun m => ?_
      cases m with
      | miss => exact refl _
      | hit n => exact ih (Nat.le_add_left fuel extra)

include hk

theorem performCall (rules : Array (Rule V)) (rule : Rule V) (call : Call) :
    Extends (Engine.performCall rules k rule call) (Engine.performCall rules k' rule call) :=
  step fun target => bind (hk target) fun _ => refl _

theorem run (rules : Array (Rule V)) {fuel fuel' : Nat} (hle : fuel ≤ fuel') (rule : Rule V) (p : Pattern) :
    Extends (p.run rules fuel k rule) (p.run rules fuel' k' rule) := by
  induction p with
  | empty | one | text | keyword => exact refl _
  | keywords selector words ih => exact step fun start => bind ih fun m => refl _
  | seq first second ih₁ ih₂ =>
    refine step fun start => bind ih₁ fun m => ?_
    cases m with
    | miss => exact refl _
    | hit n => exact step fun middle => bind (skip hk) fun _ => bind ih₂ fun m => refl _
  | alt first second ih₁ ih₂ =>
    refine step fun start => bind ih₁ fun m => ?_
    cases m with
    | hit n => exact refl _
    | miss => exact step fun _ => ih₂
  | diff subject excluded ih₁ ih₂ =>
    refine step fun start => bind ih₁ fun m => ?_
    cases m with
    | miss => exact refl _
    | hit n => exact step fun after => step fun _ => bind ih₂ fun m => refl _
  | list item separator ih₁ ih₂ =>
    refine step fun start => bind ih₁ fun m => ?_
    cases m with
    | miss => exact refl _
    | hit n => exact bind (repeatItems (skip hk) ih₂ ih₁ hle) fun _ => refl _
  | opt subject ih => exact step fun start => bind ih fun m => refl _
  | many subject ih => exact step fun start => bind (repeatBody (skip hk) ih hle true) fun _ => refl _
  | many1 subject ih =>
    refine step fun start => bind ih fun m => ?_
    cases m with
    | miss => exact refl _
    | hit n => exact bind (repeatBody (skip hk) ih hle false) fun _ => refl _
  | expect subject ih => exact bind ih fun m => refl _
  | token subject ih => exact bracket _ _ ih
  | lookahead subject ih | notAhead subject ih => exact step fun start => bind ih fun m => refl _
  | act action subject ih => exact step fun start => bind ih fun m => refl _
  | call c => exact performCall hk rules rule c

end

theorem matchRule (rule : Rule V) {body body' : Engine V Match} (h : Extends body body') :
    Extends (Engine.matchRule rule body) (Engine.matchRule rule body') :=
  step fun _ => step fun _ => attempt h fun _ => rfl

theorem invoke (rules : Array (Rule V)) {fuel fuel' : Nat} (hle : fuel ≤ fuel') (id : RuleId) :
    Extends (Engine.invoke rules fuel id) (Engine.invoke rules fuel' id) := by
  induction fuel generalizing fuel' id with
  | zero => exact exhausted _
  | succ fuel ih =>
    obtain ⟨extra, rfl⟩ := Nat.exists_eq_add_of_le' hle
    have hle := Nat.le_add_left fuel extra
    show Extends (Engine.invoke rules (fuel + 1) id) (Engine.invoke rules (extra + fuel + 1) id)
    unfold Engine.invoke
    cases rules[id]? with
    | none => exact exhausted _
    | some rule => exact matchRule rule (run (fun id => ih hle id) rules hle rule _)

/-- A run that has ended ends the same with more fuel. -/
theorem outcome_eq {m m' : Engine V α} (h : Extends m m') {s t : State V} {r : Except Stop α}
    (hm : outcome m s = (r, t)) (hr : r ≠ .error .exhausted) : outcome m' s = (r, t) := by
  rcases h s with h | h
  · rw [hm] at h
    exact (hr h).elim
  · rw [h, hm]

end Extends

/-! ## Runs with enough fuel -/

/-- The run of a pattern of a rule from `s` ends in `t`, with a match or an error. -/
def Pattern.Ends (rules : Array (Rule V)) (rule : Rule V) (p : Pattern) (s : State V)
    (result : Except ParseError Match) (t : State V) : Prop :=
  ∃ fuel, outcome (p.run rules fuel (Engine.invoke rules fuel) rule) s = (result.mapError .error, t)

/-- An application of the skip rule from `s` ends in `t`. -/
def SkipEnds (rules : Array (Rule V)) (s : State V) (result : Except ParseError Unit) (t : State V) : Prop :=
  ∃ fuel, outcome (Engine.skip (Engine.invoke rules fuel)) s = (result.mapError .error, t)

/-- An invocation of a rule from `s` ends in `t`, with a match or an error. -/
def RuleEnds (rules : Array (Rule V)) (id : RuleId) (s : State V) (result : Except ParseError Match) (t : State V) :
    Prop :=
  ∃ fuel, outcome (Engine.invoke rules fuel id) s = (result.mapError .error, t)

section
open Filter

variable {rules : Array (Rule V)} {rule : Rule V} {p : Pattern} {s t : State V}

theorem Pattern.ends_iff_eventually {result : Except ParseError Match} :
    p.Ends rules rule s result t ↔ ∀ᶠ fuel in atTop,
      outcome (p.run rules fuel (Engine.invoke rules fuel) rule) s = (result.mapError .error, t) := by
  constructor
  · rintro ⟨fuel, h⟩
    filter_upwards [eventually_ge_atTop fuel] with fuel' hle
    exact (Extends.run (Extends.invoke rules hle) rules hle rule p).outcome_eq h (by cases result <;> nofun)
  · exact fun h => h.exists

end

end PegFront
