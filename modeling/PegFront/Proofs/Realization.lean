import PegFront.Proofs.Frames
import PegFront.Proofs.Fuel

/-!
# Derivations are runs

What can be derived is what some run comes to. A run from where a derivation begins does not use up its fuel if it
has enough of it (`Derives.finishes`), and then it ends as the derivation says, since a job ends in one way
(`Derives.ends`). Together with the other direction in `PegFront.Proofs.Adequacy`, statements about runs of linked
patterns can be proved about derivations, where there is no fuel, no stack and no record of failures.

How much fuel is enough is not said: `Finishes w skip n job c` is about every amount from `n` on, and holds
eventually.
-/

namespace PegFront

variable {V α : Type}

open Filter

/-- The computation does not use up its fuel. -/
def Halts (m : Engine V α) (s : State V) : Prop := wp m (fun _ _ => True) (fun e _ => e ≠ .exhausted) s

/-- With fuel `n` or more, the run of the job at the place does not use it up. -/
def Finishes (w : World V) (skip : Option RuleId) (n : Nat) : Job V → Cursor → Prop
  | .pattern rule p ctx, c => p.Linked w.rules rule → ∀ fuel ≥ n, ∀ s, At w skip ctx c s →
      Halts (p.run w.rules fuel (Engine.invoke w.rules fuel) rule) s
  | .rounds rule p first ctx, c => p.Linked w.rules rule → ∀ fuel ≥ n, ∀ rounds ≥ n, ∀ s, At w skip ctx c s →
      Halts (Engine.repeatBody (Engine.skip (Engine.invoke w.rules fuel))
        (p.run w.rules fuel (Engine.invoke w.rules fuel) rule) rounds first) s
  | .items rule item separator ctx, c => item.Linked w.rules rule → separator.Linked w.rules rule →
      ∀ fuel ≥ n, ∀ rounds ≥ n, ∀ s, At w skip ctx c s →
      Halts (Engine.repeatItems (Engine.skip (Engine.invoke w.rules fuel))
        (separator.run w.rules fuel (Engine.invoke w.rules fuel) rule)
        (item.run w.rules fuel (Engine.invoke w.rules fuel) rule) rounds) s
  | .rule id args, c => ∀ fuel ≥ n, ∀ (s : State V) below, At w skip s.context c s →
      s.stack = Stack.pushAll below args → Halts (Engine.invoke w.rules fuel id) s
  | .skip ctx, c => ∀ fuel ≥ n, ∀ s, At w skip ctx c s → Halts (Engine.skip (Engine.invoke w.rules fuel)) s

section
variable {w : World V} {skip skip' : Option RuleId} {ctx : Context V} {c : Cursor} {s : State V} {job : Job V}

/-! ## Steps -/

theorem Halts.still {m : Engine V α} {P : α → Prop} (h : Still m P (· ≠ .exhausted)) (s : State V) : Halts m s :=
  wp_mono (h s) (fun _ _ _ => trivial) fun _ _ ht => ht.1

theorem Halts.bind {β : Type} {m : Engine V α} {f : α → Engine V β} (hm : Halts m s) (hf : ∀ a t, Halts (f a) t) :
    Halts (m >>= f) s := (wp_bind _ _).2 (wp_mono hm (fun a t _ => hf a t) fun _ _ h => h)

theorem Follows.halts {m : Engine V Match} {f : Match → Engine V α} (h : Follows w skip job c m s)
    (hs : At w skip ctx c s) (hm : Halts m s)
    (hhit : ∀ ctx' d t, Derives w skip job c (.hit ctx' d) → Reaches w skip s ctx' d t →
      Halts (f (.hit (d.offset - c.offset))) t)
    (hmiss : ∀ ctx' t, Derives w skip job c (.miss ctx') → Reaches w skip s ctx' c t → Halts (f .miss) t) :
    Halts (m >>= f) s := by
  refine (wp_bind _ _).2 (wp_mono (wp_and h hm) ?_ fun _ _ ht => ht.2)
  rintro a t ⟨⟨r, hr, hmeets⟩, -⟩
  cases r with
  | hit ctx' d =>
    obtain ⟨rfl, ht⟩ := hmeets
    rw [hs.offset]
    exact hhit ctx' d t hr ht
  | miss ctx' =>
    obtain ⟨rfl, ht⟩ := hmeets
    exact hmiss ctx' t hr (hs.cursor ▸ ht)
  | stop => exact hmeets.elim

theorem Continues.halts {m : Engine V Unit} {f : Unit → Engine V α} (h : Continues w skip job c m s) (hm : Halts m s)
    (hhit : ∀ ctx' d t, Derives w skip job c (.hit ctx' d) → Reaches w skip s ctx' d t → Halts (f ()) t) :
    Halts (m >>= f) s := by
  refine (wp_bind _ _).2 (wp_mono (wp_and h hm) ?_ fun _ _ ht => ht.2)
  rintro a t ⟨⟨ctx', d, hd, ht⟩, -⟩
  exact hhit ctx' d t hd ht

/-- A job that hits has no other hit. -/
theorem Derives.only {P : Context V → Cursor → Prop} {d : Cursor} (h : Derives w skip job c (.hit ctx d)) (hp : P ctx d) :
    ∀ ctx' d', Derives w skip job c (.hit ctx' d') → P ctx' d' := by
  intro ctx' d' h'
  cases h.unique h'
  exact hp

/-- A job that ends otherwise has no hit. -/
theorem Derives.no_hit {P : Context V → Cursor → Prop} {r : Answer V} (h : Derives w skip job c r)
    (hr : ∀ ctx d, r ≠ .hit ctx d) : ∀ ctx d, Derives w skip job c (.hit ctx d) → P ctx d :=
  fun ctx d h' => (hr ctx d (h.unique h')).elim

theorem Derives.only_miss {P : Context V → Prop} (h : Derives w skip job c (.miss ctx)) (hp : P ctx) :
    ∀ ctx', Derives w skip job c (.miss ctx') → P ctx' := by
  intro ctx' h'
  cases h.unique h'
  exact hp

theorem Derives.no_miss {P : Context V → Prop} {r : Answer V} (h : Derives w skip job c r)
    (hr : ∀ ctx, r ≠ .miss ctx) : ∀ ctx, Derives w skip job c (.miss ctx) → P ctx :=
  fun ctx h' => (hr ctx (h.unique h')).elim

end

theorem World.CanSkip.atFirst {w : World V} {skip : Option RuleId} (h : w.CanSkip skip) (first : Bool) :
    w.CanSkip (if first then none else skip) := by
  cases first with
  | true => exact w.canSkip_none
  | false => exact h

/-! ## Operators

For each operator: the run finishes if its parts do, each of them where the run takes it up. -/

section
variable {w : World V} {skip : Option RuleId} {n : Nat} {rule : Rule V} {ctx : Context V} {c : Cursor}
  (hw : ∀ (id : RuleId) rule, w.rules[id]? = some rule → rule.definition.Linked w.rules rule)
  (hskip : w.CanSkip skip)
include hw hskip

/-- A pattern that finishes is followed by what comes behind its match or its miss. -/
theorem Finishes.halts_bind {p : Pattern} {fuel : Nat} {s : State V} {f : Match → Engine V α}
    (h : Finishes w skip n (.pattern rule p ctx) c) (hp : p.Linked w.rules rule) (hn : fuel ≥ n)
    (hs : At w skip ctx c s)
    (hhit : ∀ ctx' d t, Derives w skip (.pattern rule p ctx) c (.hit ctx' d) → Reaches w skip s ctx' d t →
      Halts (f (.hit (d.offset - c.offset))) t)
    (hmiss : ∀ ctx' t, Derives w skip (.pattern rule p ctx) c (.miss ctx') → Reaches w skip s ctx' c t →
      Halts (f .miss) t) :
    Halts (p.run w.rules fuel (Engine.invoke w.rules fuel) rule >>= f) s :=
  (follows_run (invokesAs hw fuel) fuel rule hp hskip hs).halts hs (h hp fuel hn s hs) hhit hmiss

theorem Finishes.halts_skip_bind {fuel : Nat} {s : State V} {f : Unit → Engine V α}
    (h : Finishes w skip n (.skip ctx) c) (hn : fuel ≥ n) (hs : At w skip ctx c s)
    (hhit : ∀ ctx' d t, Derives w skip (.skip ctx) c (.hit ctx' d) → Reaches w skip s ctx' d t → Halts (f ()) t) :
    Halts (Engine.skip (Engine.invoke w.rules fuel) >>= f) s :=
  (continues_skip (invokesAs hw fuel) hskip hs).halts (h fuel hn s hs) hhit

theorem finishes_seq {a b : Pattern} (ha : Finishes w skip n (.pattern rule a ctx) c)
    (hs : ∀ ctx₁ c₁, Derives w skip (.pattern rule a ctx) c (.hit ctx₁ c₁) → Finishes w skip n (.skip ctx₁) c₁)
    (hb : ∀ ctx₁ c₁, Derives w skip (.pattern rule a ctx) c (.hit ctx₁ c₁) →
      ∀ ctx₂ c₂, Derives w skip (.skip ctx₁) c₁ (.hit ctx₂ c₂) → Finishes w skip n (.pattern rule b ctx₂) c₂) :
    Finishes w skip n (.pattern rule (.seq a b) ctx) c := by
  intro hp fuel hn s hat
  unfold Pattern.run Halts
  rw [wp_bind, Engine.wp_here]
  refine ha.halts_bind hw hskip hp.1 hn hat ?_ fun _ _ _ _ => trivial
  intro ctx₁ c₁ t h₁ ht
  unfold Halts
  rw [wp_bind, Engine.wp_here]
  refine (hs _ _ h₁).halts_skip_bind hw hskip hn ht.toAt ?_
  intro ctx₂ c₂ u h₂ hu
  refine (hb _ _ h₁ _ _ h₂).halts_bind hw hskip hp.2 hn hu.toAt ?_ fun _ _ _ _ => trivial
  intro ctx₃ d v _ _
  rcases d.offset - c₂.offset with _ | _ <;> trivial

theorem finishes_alt {a b : Pattern} (ha : Finishes w skip n (.pattern rule a ctx) c)
    (hb : ∀ ctx₁, Derives w skip (.pattern rule a ctx) c (.miss ctx₁) → Finishes w skip n (.pattern rule b ctx₁) c) :
    Finishes w skip n (.pattern rule (.alt a b) ctx) c := by
  intro hp fuel hn s hat
  unfold Pattern.run Halts
  rw [wp_bind, Engine.wp_here, hat.cursor]
  refine ha.halts_bind hw hskip hp.1 hn hat (fun _ _ _ _ _ => trivial) ?_
  intro ctx₁ t h₁ ht
  exact hb _ h₁ hp.2 fuel hn _ (ht.back hat).toAt

theorem finishes_diff {a b : Pattern} (ha : Finishes w skip n (.pattern rule a ctx) c)
    (hb : ∀ ctx₁ d, Derives w skip (.pattern rule a ctx) c (.hit ctx₁ d) → Finishes w skip n (.pattern rule b ctx₁) c) :
    Finishes w skip n (.pattern rule (.diff a b) ctx) c := by
  intro hp fuel hn s hat
  unfold Pattern.run Halts
  rw [wp_bind, Engine.wp_here, hat.cursor]
  refine ha.halts_bind hw hskip hp.1 hn hat ?_ fun _ _ _ _ => trivial
  intro ctx₁ d t h₁ ht
  have hback := ht.back hat
  unfold Halts
  rw [wp_bind, Engine.wp_here, wp_bind, Engine.wp_moveTo]
  refine (hb _ _ h₁).halts_bind hw hskip hp.2 hn hback.toAt ?_ ?_
  · intro ctx₂ e u _ _
    split <;> trivial
  · intro ctx₂ u _ _
    split <;> trivial

theorem finishes_list {item separator : Pattern} (hi : Finishes w skip n (.pattern rule item ctx) c)
    (hr : ∀ ctx₁ c₁, Derives w skip (.pattern rule item ctx) c (.hit ctx₁ c₁) →
      Finishes w skip n (.items rule item separator ctx₁) c₁) :
    Finishes w skip n (.pattern rule (.list item separator) ctx) c := by
  intro hp fuel hn s hat
  unfold Pattern.run Halts
  rw [wp_bind, Engine.wp_here]
  refine hi.halts_bind hw hskip hp.1 hn hat ?_ fun _ _ _ _ => trivial
  intro ctx₁ c₁ t h₁ ht
  exact (hr _ _ h₁ hp.1 hp.2 fuel hn fuel hn t ht.toAt).bind fun _ _ => trivial

theorem finishes_many1 {p : Pattern} (ha : Finishes w skip n (.pattern rule p ctx) c)
    (hr : ∀ ctx₁ c₁, Derives w skip (.pattern rule p ctx) c (.hit ctx₁ c₁) →
      Finishes w skip n (.rounds rule p false ctx₁) c₁) : Finishes w skip n (.pattern rule (.many1 p) ctx) c := by
  intro hp fuel hn s hat
  unfold Pattern.run Halts
  rw [wp_bind, Engine.wp_here]
  refine ha.halts_bind hw hskip hp hn hat ?_ fun _ _ _ _ => trivial
  intro ctx₁ c₁ t h₁ ht
  exact (hr _ _ h₁ hp fuel hn fuel hn t ht.toAt).bind fun _ _ => trivial

omit hw hskip

theorem finishes_many {p : Pattern} (hr : Finishes w skip n (.rounds rule p true ctx) c) :
    Finishes w skip n (.pattern rule (.many p) ctx) c := by
  intro hp fuel hn s hat
  unfold Pattern.run Halts
  rw [wp_bind, Engine.wp_here]
  exact (hr hp fuel hn fuel hn s hat).bind fun _ _ => trivial

/-- What an operator does after its only part never uses up fuel. -/
theorem finishes_after {p q : Pattern} (hq : Finishes w skip n (.pattern rule q ctx) c)
    (hlinked : p.Linked w.rules rule → q.Linked w.rules rule)
    (hrun : ∀ fuel s, Halts (q.run w.rules fuel (Engine.invoke w.rules fuel) rule) s →
      Halts (p.run w.rules fuel (Engine.invoke w.rules fuel) rule) s) :
    Finishes w skip n (.pattern rule p ctx) c :=
  fun hp fuel hn s hat => hrun fuel s (hq (hlinked hp) fuel hn s hat)

theorem finishes_keywords {p : Pattern} {words : List String} (hp : Finishes w skip n (.pattern rule p ctx) c) :
    Finishes w skip n (.pattern rule (.keywords p words) ctx) c := by
  refine finishes_after hp id fun fuel s h => ?_
  unfold Pattern.run Halts
  rw [wp_bind, Engine.wp_here]
  refine h.bind fun m t => ?_
  unfold Halts
  rw [wp_bind, Engine.wp_here]
  split <;> trivial

theorem finishes_opt {p : Pattern} (hp : Finishes w skip n (.pattern rule p ctx) c) :
    Finishes w skip n (.pattern rule (.opt p) ctx) c := by
  refine finishes_after hp id fun fuel s h => ?_
  unfold Pattern.run Halts
  rw [wp_bind, Engine.wp_here]
  exact h.bind fun m t => by cases m <;> trivial

theorem finishes_expect {p : Pattern} (hp : Finishes w skip n (.pattern rule p ctx) c) :
    Finishes w skip n (.pattern rule (.expect p) ctx) c := by
  refine finishes_after hp id fun fuel s h => h.bind fun m t => ?_
  cases m with
  | hit => trivial
  | miss => exact (nofun : Stop.error _ ≠ .exhausted)

theorem finishes_lookahead {p : Pattern} (hp : Finishes w skip n (.pattern rule p ctx) c) :
    Finishes w skip n (.pattern rule (.lookahead p) ctx) c := by
  refine finishes_after hp id fun fuel s h => ?_
  unfold Pattern.run Halts
  rw [wp_bind, Engine.wp_here]
  exact h.bind fun m t => trivial

theorem finishes_notAhead {p : Pattern} (hp : Finishes w skip n (.pattern rule p ctx) c) :
    Finishes w skip n (.pattern rule (.notAhead p) ctx) c := by
  refine finishes_after hp id fun fuel s h => ?_
  unfold Pattern.run Halts
  rw [wp_bind, Engine.wp_here]
  exact h.bind fun m t => trivial

theorem halts_runAction (rule : Rule V) (name : String) (start : Cursor) (length : Nat) (s : State V) :
    Halts (Engine.runAction rule name start length) s := by
  unfold Engine.runAction Halts
  rw [wp_bind, wp_get]
  dsimp only
  split
  · exact (nofun : Stop.error _ ≠ .exhausted)
  · next f _ =>
    rcases f s.context (Engine.matchedSince start s.scanner) with ⟨verdict, context⟩
    cases verdict with
    | pass | reject => trivial
    | fail cause => exact (nofun : Stop.error _ ≠ .exhausted)

theorem finishes_act {name : String} {p : Pattern} (hp : Finishes w skip n (.pattern rule p ctx) c) :
    Finishes w skip n (.pattern rule (.act name p) ctx) c := by
  refine finishes_after hp And.right fun fuel s h => ?_
  unfold Pattern.run Halts
  rw [wp_bind, Engine.wp_here]
  refine h.bind fun m t => ?_
  cases m with
  | miss => trivial
  | hit k => exact halts_runAction rule name _ k t

theorem finishes_token {p : Pattern} (hp : Finishes w none n (.pattern rule p ctx) c) :
    Finishes w skip n (.pattern rule (.token p) ctx) c := by
  intro hl fuel hn s hat
  exact (Engine.wp_bracket _ _ _).2 (hp hl fuel hn _ hat.beginToken)

theorem finishes_call {call : Call} (hr : ∀ id, call.target = some id →
      (rule.argumentsOf call ctx).length = call.arity → Finishes w skip n (.rule id (rule.argumentsOf call ctx)) c) :
    Finishes w skip n (.pattern rule (.call call) ctx) c := by
  intro hl fuel hn s hat
  obtain ⟨id, callee, ht, hcallee, harity⟩ := hl
  obtain rfl := hat.context
  have hpushed : At w skip s.context c { s with stack := s.stack.pushAll (rule.argumentsOf call s.context) } :=
    ⟨hat.cursor, hat.place, rfl, hat.skips, hat.file, hat.fileIndex⟩
  refine (wp_bind _ _).2 (wp_mono (wp_and (Tidy.passArguments ht).2 (Still.passArguments rule call s)) ?_
    fun _ _ h => h.2.1)
  rintro _ _ ⟨⟨rfl, hl, rfl⟩, -⟩
  exact (hr _ ht hl fuel hn _ s.stack hpushed rfl).bind fun m t => .still (.endCall w.rules rule call _ m) t

/-! ## Rules and skipping -/

theorem finishes_rule {id : RuleId} {args : List V} {rule : Rule V} (hr : w.rules[id]? = some rule)
    (ha : args.length = rule.arity) (hl : rule.definition.Linked w.rules rule)
    (h : Finishes w skip (n - 1) (.pattern rule rule.definition (.enter rule.attributes args c.offset)) c) (hn : 0 < n) :
    Finishes w skip n (.rule id args) c := by
  intro fuel hfuel s below hat hstack
  obtain ⟨fuel, rfl⟩ := Nat.exists_eq_succ_of_ne_zero (show fuel ≠ 0 by omega)
  unfold Engine.invoke
  rw [hr]
  dsimp only
  unfold Engine.matchRule Engine.enter Halts
  rw [wp_bind, wp_get, wp_bind, wp_bind, wp_get, hstack, ← ha, Stack.popN?_pushAll]
  dsimp only
  rw [wp_bind, Engine.wp_setStack, wp_bind, Engine.wp_setContext, Engine.wp_onScanner, wp_bind,
    Engine.wp_attempt, hat.offset]
  have hin : ∀ stack, At w skip (.enter rule.attributes args c.offset) c
      ⟨s.scanner.enterRule rule.qualifiedName, stack, .enter rule.attributes args c.offset⟩ := by
    intro stack
    obtain ⟨trace, henter⟩ := s.scanner.enterRule_eq rule.qualifiedName
    rw [henter]
    exact ⟨hat.cursor, hat.place, rfl, hat.skips, hat.file, hat.fileIndex⟩
  have hleave : ∀ result, result ≠ .error .exhausted → ∀ t, Halts (Engine.leave rule s result) t := by
    intro result hresult t
    refine wp_mono (Still.leave rule s result t) (fun _ _ _ => trivial) ?_
    rintro e u ⟨rfl | he, -⟩
    · exact fun he => hresult (congrArg _ he)
    · exact he
  refine wp_mono (h hl fuel (by omega) _ (hin below)) (fun m t _ => ?_) fun e t he => ?_
  · exact hleave (.ok m) (by rintro ⟨⟩) t
  · exact hleave _ (fun h => he (by injection h)) t

theorem finishes_skip {id : RuleId} (h : Finishes w none n (.rule id []) c) :
    Finishes w (some id) n (.skip ctx) c := by
  intro fuel hn s hat
  obtain ⟨hrule, hcan, -⟩ := Scanner.skipsWith_eq_some hat.skips
  have hin : At w none s.context c { s with scanner := s.scanner.setSkipping true } :=
    (hat.context.symm ▸ hat : At w (some id) s.context c s).setSkipping
  have hend : ∀ result, result ≠ .error .exhausted → ∀ t, Halts (Engine.endSkip s result) t := by
    intro result hresult t
    rcases result with e | _ | _
    · exact fun he => hresult (congrArg _ he)
    · trivial
    · trivial
  unfold Engine.skip Halts
  rw [wp_bind, wp_get]
  simp only [hrule, hcan, if_true, wp_bind, Engine.wp_attempt, Engine.wp_bracket]
  refine wp_mono (h fuel hn _ s.stack hin rfl) (fun m t _ => ?_) fun e t he => ?_
  · exact hend (.ok m) (by rintro ⟨⟩) _
  · exact hend _ (fun h => he (by injection h)) _

theorem finishes_skip_none : Finishes w none n (.skip ctx) c := by
  intro fuel hn s hat
  have hskips := hat.skips
  unfold Scanner.skipsWith at hskips
  unfold Engine.skip Halts
  rw [wp_bind, wp_get]
  split
  · trivial
  · next id hrule =>
    split
    · next hcan => simp [hcan, hrule] at hskips
    · trivial

theorem finishes_terminal {p : Pattern}
    (h : ∀ fuel, PlacedMatch (p.run w.rules fuel (Engine.invoke w.rules fuel) rule)) :
    Finishes w skip n (.pattern rule p ctx) c :=
  fun _ fuel _ s hat => wp_mono (h fuel _ s rfl (hat.cursor ▸ hat.place)) (fun _ _ _ => trivial) fun _ _ h => h.elim

/-! ## Loops -/

include hw hskip

theorem finishes_rounds {p : Pattern} {first : Bool} (hn : 0 < n)
    (hs : c.rest ≠ [] → Finishes w (if first then none else skip) n (.skip ctx) c)
    (hp : c.rest ≠ [] → ∀ ctx₁ c₁, Derives w (if first then none else skip) (.skip ctx) c (.hit ctx₁ c₁) →
      Finishes w skip n (.pattern rule p ctx₁) c₁)
    (hr : c.rest ≠ [] → ∀ ctx₁ c₁, Derives w (if first then none else skip) (.skip ctx) c (.hit ctx₁ c₁) →
      ∀ ctx₂ c₂, Derives w skip (.pattern rule p ctx₁) c₁ (.hit ctx₂ c₂) →
        Finishes w skip (n - 1) (.rounds rule p false ctx₂) c₂) :
    Finishes w skip n (.rounds rule p first ctx) c := by
  intro hl fuel hfuel rounds hrounds s hat
  obtain ⟨rounds, rfl⟩ := Nat.exists_eq_succ_of_ne_zero (show rounds ≠ 0 by omega)
  unfold Engine.repeatBody Halts
  rw [wp_bind, wp_get]
  dsimp only
  split
  · trivial
  · next hend =>
    have hc : c.rest ≠ [] := fun h => hend (hat.atEnd.2 h)
    -- One round from a place up to which was skipped.
    have round : ∀ {ctx₁ c₁ t} {next : Match → Engine V Unit}, next .miss = Engine.moveTo s.scanner.cursor →
        (∀ m, next (.hit m) = Engine.repeatBody (Engine.skip (Engine.invoke w.rules fuel))
          (p.run w.rules fuel (Engine.invoke w.rules fuel) rule) rounds false) →
        Derives w (if first then none else skip) (.skip ctx) c (.hit ctx₁ c₁) → At w skip ctx₁ c₁ t →
        Halts (p.run w.rules fuel (Engine.invoke w.rules fuel) rule >>= next) t := by
      intro ctx₁ c₁ t next hmiss hhit h₁ ht
      refine (hp hc _ _ h₁).halts_bind hw hskip hl hfuel ht ?_ ?_
      · intro ctx₂ c₂ u h₂ hu
        rw [hhit]
        exact hr hc _ _ h₁ _ _ h₂ hl fuel (by omega) rounds (by omega) u hu.toAt
      · intro ctx₂ u _ _
        rw [hmiss]
        trivial
    cases first with
    | true => exact round rfl (fun _ => rfl) .skip_none hat
    | false =>
      refine (hs hc).halts_skip_bind hw hskip hfuel hat ?_
      intro ctx₁ c₁ t h₁ ht
      exact round rfl (fun _ => rfl) h₁ ht.toAt

theorem finishes_items {item separator : Pattern} (hn : 0 < n) (hs : Finishes w skip n (.skip ctx) c)
    (hp : ∀ ctx₁ c₁, Derives w skip (.skip ctx) c (.hit ctx₁ c₁) → Finishes w skip n (.pattern rule separator ctx₁) c₁)
    (hs' : ∀ ctx₁ c₁, Derives w skip (.skip ctx) c (.hit ctx₁ c₁) →
      ∀ ctx₂ c₂, Derives w skip (.pattern rule separator ctx₁) c₁ (.hit ctx₂ c₂) → Finishes w skip n (.skip ctx₂) c₂)
    (hi : ∀ ctx₁ c₁, Derives w skip (.skip ctx) c (.hit ctx₁ c₁) →
      ∀ ctx₂ c₂, Derives w skip (.pattern rule separator ctx₁) c₁ (.hit ctx₂ c₂) →
      ∀ ctx₃ c₃, Derives w skip (.skip ctx₂) c₂ (.hit ctx₃ c₃) → Finishes w skip n (.pattern rule item ctx₃) c₃)
    (hr : ∀ ctx₁ c₁, Derives w skip (.skip ctx) c (.hit ctx₁ c₁) →
      ∀ ctx₂ c₂, Derives w skip (.pattern rule separator ctx₁) c₁ (.hit ctx₂ c₂) →
      ∀ ctx₃ c₃, Derives w skip (.skip ctx₂) c₂ (.hit ctx₃ c₃) →
      ∀ ctx₄ c₄, Derives w skip (.pattern rule item ctx₃) c₃ (.hit ctx₄ c₄) →
        Finishes w skip (n - 1) (.items rule item separator ctx₄) c₄) :
    Finishes w skip n (.items rule item separator ctx) c := by
  intro hli hlp fuel hfuel rounds hrounds s hat
  obtain ⟨rounds, rfl⟩ := Nat.exists_eq_succ_of_ne_zero (show rounds ≠ 0 by omega)
  unfold Engine.repeatItems Halts
  rw [wp_bind, Engine.wp_here]
  refine hs.halts_skip_bind hw hskip hfuel hat ?_
  intro ctx₁ c₁ t h₁ ht
  refine (hp _ _ h₁).halts_bind hw hskip hlp hfuel ht.toAt ?_ fun _ _ _ _ => trivial
  intro ctx₂ c₂ u h₂ hu
  refine (hs' _ _ h₁ _ _ h₂).halts_skip_bind hw hskip hfuel hu.toAt ?_
  intro ctx₃ c₃ v h₃ hv
  refine (hi _ _ h₁ _ _ h₂ _ _ h₃).halts_bind hw hskip hli hfuel hv.toAt ?_ fun _ _ _ _ => trivial
  intro ctx₄ c₄ x h₄ hx
  exact hr _ _ h₁ _ _ h₂ _ _ h₃ _ _ h₄ hli hlp fuel (by omega) rounds (by omega) x hx.toAt

end

/-! ## Derivations -/

section
variable {w : World V} {skip : Option RuleId} {job : Job V} {c : Cursor} {r : Answer V}

theorem Derives.finishes
    (hw : ∀ (id : RuleId) rule, w.rules[id]? = some rule → rule.definition.Linked w.rules rule)
    (h : Derives w skip job c r) (hskip : w.CanSkip skip) : ∀ᶠ n in atTop, Finishes w skip n job c := by
  have hpos : ∀ᶠ n : Nat in atTop, 0 < n := eventually_gt_atTop 0
  have before : ∀ {P : Nat → Prop}, (∀ᶠ n in atTop, P n) → ∀ᶠ n in atTop, P (n - 1) :=
    (tendsto_sub_atTop_nat 1).eventually
  induction h with
  -- Skipping and rules
  | skip_none => exact .of_forall fun n => finishes_skip_none
  | skip_hit _ ih | skip_miss _ ih | skip_stop _ ih =>
    filter_upwards [ih w.canSkip_none] with n h using finishes_skip h
  | rule_hit hr ha _ _ ih | rule_miss hr ha _ ih | rule_valueless hr ha _ _ _ ih | rule_stop hr ha _ ih =>
    filter_upwards [before (ih hskip), hpos] with n h hn using finishes_rule hr ha (hw _ _ hr) h hn
  -- Terminals
  | empty => exact .of_forall fun n _ fuel _ s _ => trivial
  | one_hit | one_miss => exact .of_forall fun n => finishes_terminal fun _ => .matchOne _
  | text_hit | text_miss => exact .of_forall fun n => finishes_terminal fun _ => .matchText _
  | keyword_hit | keyword_miss => exact .of_forall fun n => finishes_terminal fun _ => .matchKeyword _
  | keywords_hit _ _ ih | keywords_other _ _ ih | keywords_miss _ ih | keywords_stop _ ih =>
    filter_upwards [ih hskip] with n h using finishes_keywords h
  -- Operators
  | seq_hit ha hs _ _ iha ihs ihb | seq_empty ha hs _ _ iha ihs ihb | seq_second ha hs _ iha ihs ihb
  | seq_stop_second ha hs _ iha ihs ihb =>
    filter_upwards [iha hskip, ihs hskip, ihb hskip] with n fa fs fb
      using finishes_seq hw hskip fa (ha.only fs) (ha.only (hs.only fb))
  | seq_stop_skip ha hs iha ihs =>
    filter_upwards [iha hskip, ihs hskip] with n fa fs
      using finishes_seq hw hskip fa (ha.only fs) (ha.only (hs.no_hit nofun))
  | seq_first ha iha | seq_stop_first ha iha =>
    filter_upwards [iha hskip] with n fa using finishes_seq hw hskip fa (ha.no_hit nofun) (ha.no_hit nofun)
  | alt_first ha iha | alt_stop ha iha =>
    filter_upwards [iha hskip] with n fa using finishes_alt hw hskip fa (ha.no_miss nofun)
  | alt_second ha _ iha ihb =>
    filter_upwards [iha hskip, ihb hskip] with n fa fb using finishes_alt hw hskip fa (ha.only_miss fb)
  | diff_subject ha iha | diff_stop_subject ha iha =>
    filter_upwards [iha hskip] with n fa using finishes_diff hw hskip fa (ha.no_hit nofun)
  | diff_apart ha _ iha ihb | diff_longer ha _ _ iha ihb | diff_excluded ha _ _ iha ihb
  | diff_stop_excluded ha _ iha ihb =>
    filter_upwards [iha hskip, ihb hskip] with n fa fb
      using finishes_diff hw hskip fa (ha.only (P := fun ctx _ => Finishes w _ n (.pattern _ _ ctx) _) fb)
  | list_miss h ih | list_stop h ih =>
    filter_upwards [ih hskip] with n f using finishes_list hw hskip f (h.no_hit nofun)
  | list_hit h _ ih ihi =>
    filter_upwards [ih hskip, ihi hskip] with n f fi using finishes_list hw hskip f (h.only fi)
  | opt_hit _ ih | opt_miss _ ih | opt_stop _ ih => filter_upwards [ih hskip] with n f using finishes_opt f
  | many _ ih => filter_upwards [ih hskip] with n f using finishes_many f
  | many1_miss h ih | many1_stop h ih =>
    filter_upwards [ih hskip] with n f using finishes_many1 hw hskip f (h.no_hit nofun)
  | many1_hit h _ ih ihr =>
    filter_upwards [ih hskip, ihr hskip] with n f fr using finishes_many1 hw hskip f (h.only fr)
  | expect_hit _ ih | expect_miss _ ih | expect_stop _ ih =>
    filter_upwards [ih hskip] with n f using finishes_expect f
  | token _ ih => filter_upwards [ih w.canSkip_none] with n f using finishes_token f
  | lookahead_hit _ ih | lookahead_miss _ ih | lookahead_stop _ ih =>
    filter_upwards [ih hskip] with n f using finishes_lookahead f
  | notAhead_hit _ ih | notAhead_miss _ ih | notAhead_stop _ ih =>
    filter_upwards [ih hskip] with n f using finishes_notAhead f
  -- Actions and calls
  | act_miss _ ih | act_pass _ _ _ ih | act_reject _ _ _ ih | act_fail _ _ _ ih | act_stop _ ih =>
    filter_upwards [ih hskip] with n f using finishes_act f
  | call_hit ht _ _ _ ih | call_miss ht _ _ ih | call_stop ht _ _ ih =>
    filter_upwards [ih hskip] with n f
    refine finishes_call fun id ht' _ => ?_
    cases ht.symm.trans ht'
    exact f
  | call_arguments hl => exact .of_forall fun n => finishes_call fun _ _ hl' => (hl hl').elim
  -- Loops
  | rounds_end hc =>
    filter_upwards [hpos] with n hn
    exact finishes_rounds hw hskip hn (fun h => (h hc).elim) (fun h => (h hc).elim) fun h => (h hc).elim
  | @rounds_miss skip rule p first _ _ _ _ _ hs h ihs ih | @rounds_stop skip rule p first _ _ _ _ hs h ihs ih =>
    filter_upwards [hpos, ihs (hskip.atFirst first), ih hskip] with n hn fs f
    exact finishes_rounds hw hskip hn (fun _ => fs) (fun _ => hs.only f) fun _ => hs.only (h.no_hit nofun)
  | @rounds_hit skip rule p first _ _ _ _ _ _ _ hs h _ ihs ih ihr =>
    filter_upwards [hpos, ihs (hskip.atFirst first), ih hskip, before (ihr hskip)] with n hn fs f fr
    exact finishes_rounds hw hskip hn (fun _ => fs) (fun _ => hs.only f) fun _ => hs.only (h.only fr)
  | @rounds_stop_skip skip rule p first _ _ _ hs ihs =>
    filter_upwards [hpos, ihs (hskip.atFirst first)] with n hn fs
    exact finishes_rounds hw hskip hn (fun _ => fs) (fun _ => hs.no_hit nofun) fun _ => hs.no_hit nofun
  | items_stop_skip hs ihs =>
    filter_upwards [hpos, ihs hskip] with n hn fs
    exact finishes_items hw hskip hn fs (hs.no_hit nofun) (hs.no_hit nofun) (hs.no_hit nofun) (hs.no_hit nofun)
  | items_end hs h ihs ih | items_stop_separator hs h ihs ih =>
    filter_upwards [hpos, ihs hskip, ih hskip] with n hn fs f
    exact finishes_items hw hskip hn fs (hs.only f) (hs.only (h.no_hit nofun)) (hs.only (h.no_hit nofun))
      (hs.only (h.no_hit nofun))
  | items_stop_between hs h hs' ihs ih ihs' =>
    filter_upwards [hpos, ihs hskip, ih hskip, ihs' hskip] with n hn fs f fs'
    exact finishes_items hw hskip hn fs (hs.only f) (hs.only (h.only fs')) (hs.only (h.only (hs'.no_hit nofun)))
      (hs.only (h.only (hs'.no_hit nofun)))
  | items_back hs h hs' hi ihs ih ihs' ihi | items_stop hs h hs' hi ihs ih ihs' ihi =>
    filter_upwards [hpos, ihs hskip, ih hskip, ihs' hskip, ihi hskip] with n hn fs f fs' fi
    exact finishes_items hw hskip hn fs (hs.only f) (hs.only (h.only fs')) (hs.only (h.only (hs'.only fi)))
      (hs.only (h.only (hs'.only (hi.no_hit nofun))))
  | items_hit hs h hs' hi _ ihs ih ihs' ihi ihr =>
    filter_upwards [hpos, ihs hskip, ih hskip, ihs' hskip, ihi hskip, before (ihr hskip)] with n hn fs f fs' fi fr
    exact finishes_items hw hskip hn fs (hs.only f) (hs.only (h.only fs')) (hs.only (h.only (hs'.only fi)))
      (hs.only (h.only (hs'.only (hi.only fr))))

/-! ## Runs without fuel -/

variable (hw : ∀ (id : RuleId) rule, w.rules[id]? = some rule → rule.definition.Linked w.rules rule)
  (hskip : w.CanSkip skip) {ctx : Context V} {s : State V}
include hw hskip

/-- With enough fuel the run of a pattern ends as a derivation says. -/
theorem Derives.eventually_meets {rule : Rule V} {p : Pattern} (hp : p.Linked w.rules rule)
    (h : Derives w skip (.pattern rule p ctx) c r) :
    ∀ᶠ fuel in atTop, ∀ s, At w skip ctx c s →
      wp (p.run w.rules fuel (Engine.invoke w.rules fuel) rule) (fun m t => r.Meets w skip s m t)
        (fun e _ => r = .stop ∧ e ≠ .exhausted) s := by
  filter_upwards [h.finishes hw hskip] with fuel hf s hs
  refine wp_mono (wp_and (follows_run (invokesAs hw fuel) fuel rule hp hskip hs) (hf hp fuel (Nat.le_refl _) s hs)) ?_ ?_
  · rintro m t ⟨⟨r', hr', hm⟩, -⟩
    cases h.unique hr'
    exact hm
  · rintro e t ⟨he | he, hne⟩
    · exact (hne he).elim
    · exact ⟨h.unique he, hne⟩

/-- With enough fuel an application of the skip rule goes where a derivation says. -/
theorem Derives.eventually_skips {d : Cursor} (h : Derives w skip (.skip ctx) c (.hit ctx d)) :
    ∀ᶠ fuel in atTop, ∀ s, At w skip ctx c s →
      outcome (Engine.skip (Engine.invoke w.rules fuel)) s = (.ok (), s.moveTo d) := by
  filter_upwards [h.finishes hw hskip] with fuel hf s hs
  rcases hout : outcome (Engine.skip (Engine.invoke w.rules fuel)) s with ⟨e | _, t⟩
  · have hne := wp_error (hf fuel (Nat.le_refl _) s hs) hout
    have hstop := wp_error (continues_skip (invokesAs hw fuel) hskip hs) hout
    cases h.unique (hstop.resolve_left hne)
  · obtain ⟨d', hd', -, rfl⟩ := outcome_skip hw hskip hs hout
    cases h.unique hd'
    rfl

/-- A run that ends follows a derivation. -/
theorem Pattern.Ends.derives {rule : Rule V} {p : Pattern} (hp : p.Linked w.rules rule) (hs : At w skip ctx c s)
    {result : Except ParseError Match} {t : State V} (h : p.Ends w.rules rule s result t) :
    (∃ e, result = .error e ∧ Derives w skip (.pattern rule p ctx) c .stop) ∨
      ∃ r m, result = .ok m ∧ Derives w skip (.pattern rule p ctx) c r ∧ r.Meets w skip s m t := by
  obtain ⟨fuel, hout⟩ := h
  have hrun := follows_run (invokesAs hw fuel) fuel rule hp hskip hs
  cases result with
  | error e => exact .inl ⟨e, rfl, (wp_error hrun hout).resolve_left nofun⟩
  | ok m =>
    obtain ⟨r, hr, hmeets⟩ := wp_ok hrun hout
    exact .inr ⟨r, m, rfl, hr, hmeets⟩

/-- Of a hit that can be derived there is a run. -/
theorem Derives.ends_hit {rule : Rule V} {p : Pattern} (hp : p.Linked w.rules rule) (hs : At w skip ctx c s)
    {ctx' : Context V} {d : Cursor} (h : Derives w skip (.pattern rule p ctx) c (.hit ctx' d)) :
    ∃ t, p.Ends w.rules rule s (.ok (.hit (d.offset - c.offset))) t := by
  obtain ⟨fuel, hmeets⟩ := (h.eventually_meets hw hskip hp).exists
  rcases hout : outcome (p.run w.rules fuel (Engine.invoke w.rules fuel) rule) s with ⟨e | m, t⟩
  · cases (wp_error (hmeets s hs) hout).1
  · obtain ⟨rfl, -⟩ := wp_ok (hmeets s hs) hout
    exact ⟨t, fuel, hs.offset ▸ hout⟩

/-- Of an error in the skip rule that can be derived there is a run. -/
theorem Derives.skip_fails (hs : At w skip ctx c s) (h : Derives w skip (.skip ctx) c .stop) :
    ∃ e t, SkipEnds w.rules s (.error e) t := by
  obtain ⟨fuel, hf⟩ := (h.finishes hw hskip).exists
  rcases hout : outcome (Engine.skip (Engine.invoke w.rules fuel)) s with ⟨e | _, t⟩
  · cases e with
    | error e => exact ⟨e, t, fuel, hout⟩
    | exhausted => exact (wp_error (hf fuel (Nat.le_refl _) s hs) hout rfl).elim
  · obtain ⟨d, hd, -⟩ := outcome_skip hw hskip hs hout
    cases h.unique hd

theorem skipEnds_iff (hs : At w skip ctx c s) {t : State V} : SkipEnds w.rules s (.ok ()) t ↔
    ∃ d, Derives w skip (.skip ctx) c (.hit ctx d) ∧ t = s.moveTo d := by
  constructor
  · rintro ⟨fuel, h⟩
    obtain ⟨d, hd, -, ht⟩ := outcome_skip hw hskip hs h
    exact ⟨d, hd, ht⟩
  · rintro ⟨d, hd, rfl⟩
    exact ((hd.eventually_skips hw hskip).mono fun fuel h => h s hs).exists

/-- An invocation of a rule ends as a derivation says, and in no other way. -/
theorem Derives.ruleEnds {id : RuleId} {rule : Rule V} {args : List V} {below : Stack V}
    (hr : w.rules[id]? = some rule) (ha : args.length = rule.arity) (hs : At w skip s.context c s)
    (hstack : s.stack = below.pushAll args) (h : Derives w skip (.rule id args) c r) (hstop : r ≠ .stop) :
    (∃ m t, RuleEnds w.rules id s (.ok m) t) ∧
      ∀ result t, RuleEnds w.rules id s result t → ∃ m, result = .ok m ∧ r.Leaves w skip rule below s m t := by
  have hruns := fun fuel => invokesAs hw fuel args below hskip hr ha hs hstack
  constructor
  · obtain ⟨fuel, hf⟩ := (h.finishes hw hskip).exists
    rcases hout : outcome (Engine.invoke w.rules fuel id) s with ⟨e | m, t⟩
    · obtain he | he := wp_error (hruns fuel) hout
      · exact (wp_error (hf fuel (Nat.le_refl _) s below hs hstack) hout he).elim
      · exact (hstop (h.unique he)).elim
    · exact ⟨m, t, fuel, hout⟩
  · rintro result t ⟨fuel, hout⟩
    cases result with
    | error e =>
      obtain he | he := wp_error (hruns fuel) hout
      · cases he
      · exact (hstop (h.unique he)).elim
    | ok m =>
      obtain ⟨r', hr', hleaves⟩ := wp_ok (hruns fuel) hout
      cases h.unique hr'
      exact ⟨m, rfl, hleaves⟩

end

end PegFront
