import PegFront.Proofs.Sessions
import PegFront.Proofs.Signature

/-!
# Types of values

In a table of rules that conform to their signatures and pass the check, a rule that is called with values of
the types it declares returns a value of the type it declares (`Serves`). No call is passed the wrong number of
arguments and no value is missing; a run stops because of the input, or where an action fails the parse. The
walk over a pattern carries what is known of the context: a match loses nothing of it, and a hit adds what
`Pattern.learns` computed (`Teaches`).
-/

namespace PegFront

variable {V : Type}

/-! ## Runs -/

/-- A reason to stop that no rule is to blame for. -/
def Excused (tame : Cause → Prop) : Stop → Prop
  | .error e => (∃ expected found, e.cause = .expectationFailure expected found) ∨ tame e.cause
  | .exhausted => True

/-- What a rule leaves on the stack has the type it declares. -/
structure Rule.Delivers (typeOf : V → String) (rule : Rule V) (m : Match) (before after : Stack V) : Prop where
  returns : rule.Returns m before after
  typed : ∀ v, after = before.push v → rule.valueType = some (typeOf v)

/-- A computation that stands for an invocation of the rule: with arguments of the declared types it delivers
the value. -/
def Serves (typeOf : V → String) (tame : Cause → Prop) (rules : Array (Rule V)) (rule : Rule V)
    (m : Engine V Match) : Prop :=
  ∀ s args below, SkipReady rules s → s.stack = Stack.pushAll below args →
    args.map typeOf = rule.attributes.map (·.typeName) →
    wp m (fun r t => rule.Delivers typeOf r below t.stack ∧ t.context = s.context ∧
      t.scanner.skipRule = s.scanner.skipRule) (fun e _ => Excused tame e) s

/-- From `s` to `t` nothing that was known is lost. -/
structure Retains (L : Layout V) (s t : State V) : Prop extends Kept s t where
  keeps : L.Keeps s.context t.context

namespace Retains

variable {L : Layout V} {s t u : State V}

theorem rfl : Retains L s s := ⟨.rfl, .rfl⟩

theorem trans (h : Retains L s t) (h' : Retains L t u) : Retains L s u :=
  ⟨h.toKept.trans h'.toKept, h.keeps.trans h'.keeps⟩

theorem moveTo (h : Retains L s t) (c : Cursor) :
    Retains L s { t with scanner := t.scanner.moveTo c } := ⟨⟨h.stack, h.skipRule⟩, h.keeps⟩

end Retains

theorem Same.retains {L : Layout V} {s t : State V} (h : Same s t) : Retains L s t :=
  ⟨h.toKept, h.context ▸ .rfl⟩

theorem Quiet.wp {α : Type} {m : Engine V α} {E : Stop → State V → Prop} (h : Quiet m) (s : State V) :
    wp m (fun _ => Same s) E s :=
  wp_mono (h s).2 (fun _ _ h => h) fun _ _ => False.elim

section
variable {rules : Array (Rule V)} {typeOf : V → String} {tame : Cause → Prop} {sig : Signature}
  {rule : Rule V} {known known' : List Slot} {s t : State V}

/-- A state in which a pattern of the rule runs. -/
structure Poised (rules : Array (Rule V)) (typeOf : V → String) (sig : Signature) (rule : Rule V)
    (known : List Slot) (s : State V) : Prop where
  skip : SkipReady rules s
  attributes : (rule.layout typeOf sig).Knows rule.attributeSlots s.context
  known : (rule.layout typeOf sig).Knows known s.context

theorem Poised.retains (h : Poised rules typeOf sig rule known s)
    (ht : Retains (rule.layout typeOf sig) s t) : Poised rules typeOf sig rule known t :=
  ⟨h.skip.kept ht.skipRule, h.attributes.keeps ht.keeps, h.known.keeps ht.keeps⟩

theorem Poised.learn (h : Poised rules typeOf sig rule known s)
    (hk : (rule.layout typeOf sig).Knows known' s.context) : Poised rules typeOf sig rule known' s :=
  ⟨h.skip, h.attributes, hk⟩

/-- A match from `s` loses nothing, and a hit teaches what is in `known`. -/
def Teaches (typeOf : V → String) (tame : Cause → Prop) (sig : Signature) (rule : Rule V)
    (known : List Slot) (m : Engine V Match) (s : State V) : Prop :=
  wp m (fun r t => Retains (rule.layout typeOf sig) s t ∧
    (r.isHit = true → (rule.layout typeOf sig).Knows known t.context)) (fun e _ => Excused tame e) s

/-- A terminal does nothing to the context. -/
theorem Quiet.teaches {m : Engine V Match} (hm : Quiet m) (hs : Poised rules typeOf sig rule known s) :
    Teaches typeOf tame sig rule known m s :=
  wp_mono (hm.wp s) (fun _ _ ht => ⟨ht.retains, fun _ => hs.known.keeps (Same.retains ht).keeps⟩) fun _ _ h => h

/-- The skip rule has a context of its own and takes nothing. -/
theorem same_skip {invoke : RuleId → Engine V Match}
    (hk : ∀ id callee, rules[id]? = some callee → Serves typeOf tame rules callee (invoke id))
    (hs : SkipReady rules s) :
    wp (Engine.skip invoke) (fun _ => Same s) (fun e _ => Excused tame e) s := by
  unfold Engine.skip
  simp only [wp_bind, wp_get]
  cases hid : s.scanner.skipRule with
  | none => exact .rfl
  | some id =>
    dsimp only
    split
    · obtain ⟨callee, hcallee, ha⟩ := hs id hid
      simp only [wp_bind, Engine.wp_attempt, Engine.wp_bracket]
      have hnone : callee.attributes = [] := List.eq_nil_of_length_eq_zero ha
      refine wp_mono (hk id callee hcallee _ [] s.stack (hs.kept rfl) rfl (by rw [hnone]; rfl))
        (fun m t ⟨hd, hctx, hsk⟩ => ?_) fun e t he => he
      have hstack := hd.returns.truncate
      cases m with
      | miss => exact ⟨⟨hstack, hsk⟩, hctx⟩
      | hit n => exact ⟨⟨hstack, hsk⟩, hctx⟩
    · exact .rfl

theorem retains_repeatBody {L : Layout V} {skip : Engine V Unit} {body : Engine V Match}
    (hskip : ∀ t, Retains L s t → wp skip (fun _ => Retains L s) (fun e _ => Excused tame e) t)
    (hbody : ∀ t, Retains L s t → wp body (fun _ => Retains L s) (fun e _ => Excused tame e) t)
    (fuel : Nat) (first : Bool) (ht : Retains L s t) :
    wp (Engine.repeatBody skip body fuel first) (fun _ => Retains L s) (fun e _ => Excused tame e) t := by
  induction fuel generalizing first t with
  | zero => trivial
  | succ fuel ih =>
    unfold Engine.repeatBody
    simp only [wp_bind, wp_get]
    split
    · exact ht
    cases first with
    | true =>
      refine wp_then (hbody t ht) fun m u hu => ?_
      cases m with
      | miss => exact hu.moveTo _
      | hit n => exact ih false hu
    | false =>
      refine wp_then (hskip t ht) fun _ u hu => wp_then (hbody u hu) fun m v hv => ?_
      cases m with
      | miss => exact hv.moveTo _
      | hit n => exact ih false hv

theorem retains_repeatItems {L : Layout V} {skip : Engine V Unit} {separator item : Engine V Match}
    (hskip : ∀ t, Retains L s t → wp skip (fun _ => Retains L s) (fun e _ => Excused tame e) t)
    (hsep : ∀ t, Retains L s t → wp separator (fun _ => Retains L s) (fun e _ => Excused tame e) t)
    (hitem : ∀ t, Retains L s t → wp item (fun _ => Retains L s) (fun e _ => Excused tame e) t)
    (fuel : Nat) (ht : Retains L s t) :
    wp (Engine.repeatItems skip separator item fuel) (fun _ => Retains L s) (fun e _ => Excused tame e) t := by
  induction fuel generalizing t with
  | zero => trivial
  | succ fuel ih =>
    unfold Engine.repeatItems
    simp only [wp_bind, Engine.wp_here]
    refine wp_mono (hskip t ht) (fun _ u hu => ?_) fun _ _ h => h
    refine wp_mono (hsep u hu) (fun m v hv => ?_) fun _ _ h => h
    cases m with
    | miss => exact hv.moveTo _
    | hit n =>
      refine wp_then (hskip v hv) fun _ w hw => wp_then (hitem w hw) fun m x hx => ?_
      cases m with
      | miss => exact hx.moveTo _
      | hit n => exact ih hx

/-! ## Actions and calls -/

theorem Effect.after_eq_some {e : Effect} (h : e.after known = some known') :
    (∀ slot ∈ e.needs, slot ∈ known) ∧ known' = e.fills ++ known := by
  unfold Effect.after at h
  split at h
  · next hn =>
    cases h
    exact ⟨by simpa using hn, rfl⟩
  · nomatch h

theorem teaches_runAction (hc : rule.Conforms typeOf sig tame) {action : String} {f : Action V}
    (hf : rule.action? action = some f) (he : (sig.actions action).after known = some known')
    (hs : (rule.layout typeOf sig).Knows known s.context) (start : Cursor) (length : Nat) :
    Teaches typeOf tame sig rule known' (Engine.runAction rule action start length) s := by
  obtain ⟨hneeds, rfl⟩ := Effect.after_eq_some he
  obtain ⟨hkeeps, hpass, hfail⟩ := hc.actions action f hf s.context
    (Engine.matchedSince start s.scanner) fun slot h => hs slot (hneeds slot h)
  unfold Teaches Engine.runAction
  simp only [wp_bind, wp_get, hf, Engine.wp_setContext]
  generalize f s.context (Engine.matchedSince start s.scanner) = r at hkeeps hpass hfail
  obtain ⟨verdict, context⟩ := r
  cases verdict with
  | pass =>
    refine ⟨⟨⟨rfl, rfl⟩, hkeeps⟩, fun _ => Layout.knows_append.2 ⟨hpass rfl, ?_⟩⟩
    exact Layout.Knows.keeps hs hkeeps
  | reject => exact ⟨⟨⟨rfl, rfl⟩, hkeeps⟩, nofun⟩
  | fail cause =>
    rw [Engine.wp_raise]
    exact .inr (hfail cause rfl)

theorem Rule.Conforms.passed (hc : rule.Conforms typeOf sig tame) (c : Call) {ctx : Context V}
    (hctx : (rule.layout typeOf sig).Knows rule.attributeSlots ctx) :
    (rule.argumentsOf c ctx).map typeOf = rule.passed sig c := by
  unfold Rule.argumentsOf Rule.passed
  cases hf : rule.preCall? c.label with
  | none => rfl
  | some f => exact hc.passes c.label f hf ctx hctx

/-- The context after the value of a call is taken up. -/
def Rule.takeUp (rule : Rule V) (label : String) (ctx : Context V) (v : V) : Context V :=
  match rule.postCall? label with
  | some f => f ctx v
  | none => ctx.set label v

theorem Rule.Conforms.taken (hc : rule.Conforms typeOf sig tame) {callee : Rule V} {c : Call}
    (ht : rule.taken sig callee c known = some known') {ctx : Context V} {v : V}
    (hv : callee.valueType = some (typeOf v)) (hctx : (rule.layout typeOf sig).Knows known ctx) :
    (rule.layout typeOf sig).Keeps ctx (rule.takeUp c.label ctx v) ∧
      (rule.layout typeOf sig).Knows known' (rule.takeUp c.label ctx v) := by
  have hvalue : callee.hasValue = true := by simp [Rule.hasValue, hv]
  unfold Rule.taken at ht
  unfold Rule.takeUp
  rw [hvalue] at ht
  cases hf : rule.postCall? c.label with
  | none =>
    simp only [hf, Option.isSome_none, Bool.not_true, Bool.false_eq_true, if_false, Option.isNone_iff_eq_none,
      Option.ite_none_right_eq_some, Option.some.injEq] at ht
    obtain ⟨hfree, rfl⟩ := ht
    have hkeeps : (rule.layout typeOf sig).Keeps ctx (ctx.set c.label v) := Layout.keeps_set_free v hfree
    exact ⟨hkeeps, hctx.keeps hkeeps⟩
  | some f =>
    simp only [hf, Option.isSome_some, Bool.not_true, Bool.false_eq_true, if_false, if_true, Bool.or_eq_true,
      Bool.not_eq_true', beq_iff_eq, Option.ite_none_right_eq_some] at ht
    obtain ⟨hown, hafter⟩ := ht
    obtain ⟨hneeds, rfl⟩ := Effect.after_eq_some hafter
    obtain ⟨hkeeps, hfills⟩ := hc.takes c.label f hf ctx v (fun slot h => hctx slot (hneeds slot h))
      fun h => (hown.resolve_left (by simp [h])).symm.trans hv
    exact ⟨hkeeps, Layout.knows_append.2 ⟨hfills, hctx.keeps hkeeps⟩⟩

theorem teaches_performCall {invoke : RuleId → Engine V Match}
    (hk : ∀ id callee, rules[id]? = some callee → Serves typeOf tame rules callee (invoke id))
    (hc : rule.Conforms typeOf sig tame) {c : Call}
    (hp : (Pattern.call c).learns rules sig rule known = some known')
    (hs : Poised rules typeOf sig rule known s) :
    Teaches typeOf tame sig rule known' (Engine.performCall rules invoke rule c) s := by
  simp only [Pattern.learns, Option.bind_eq_bind, Option.bind_eq_some_iff,
    Option.ite_none_right_eq_some] at hp
  obtain ⟨target, htarget, callee, hcallee, ⟨harity, hpassed⟩, htaken⟩ := hp
  have hargs := (hc.passed c hs.attributes).trans hpassed
  have hlen : (rule.argumentsOf c s.context).length = c.arity := by
    rw [harity, Rule.arity, ← List.length_map typeOf, hargs, List.length_map]
  unfold Teaches Engine.performCall
  simp only [wp_bind]
  refine wp_mono (Tidy.passArguments htarget).2 (fun id t ⟨hid, _, ht⟩ => ?_) fun _ _ h => absurd hlen h.1
  subst hid ht
  refine wp_mono (hk id callee hcallee _ _ s.stack hs.skip rfl hargs) (fun m u ⟨hd, hctx, hsk⟩ => ?_)
    fun _ _ h => h
  unfold Engine.endCall
  rw [hcallee]
  cases m with
  | miss => exact ⟨⟨⟨hd.returns, hsk⟩, hctx ▸ .rfl⟩, nofun⟩
  | hit n =>
    simp only [wp_bind, Engine.takeUpValue]
    cases hv : callee.hasValue with
    | false =>
      have hstack : u.stack = s.stack := by simpa [Rule.Returns, Match.isHit, hv] using hd.returns
      have hknown : known = known' := by simpa [Rule.taken, hv] using htaken
      refine ⟨⟨⟨hstack, hsk⟩, hctx ▸ .rfl⟩, fun _ => ?_⟩
      show (rule.layout typeOf sig).Knows known' u.context
      rw [hctx, ← hknown]
      exact hs.known
    | true =>
      obtain ⟨v, hstack⟩ : ∃ v, u.stack = s.stack.push v := by
        simpa [Rule.Returns, Match.isHit, hv] using hd.returns
      obtain ⟨hkeeps, hknows⟩ := hc.taken htaken (hd.typed v hstack) hs.known
      simp only [if_true, wp_bind, wp_get, hstack, hctx]
      exact ⟨⟨⟨rfl, hsk⟩, hkeeps⟩, fun _ => hknows⟩

/-! ## Patterns -/

theorem Poised.skips {invoke : RuleId → Engine V Match}
    (hk : ∀ id callee, rules[id]? = some callee → Serves typeOf tame rules callee (invoke id))
    (hs : Poised rules typeOf sig rule known s) (ht : Retains (rule.layout typeOf sig) s t) :
    wp (Engine.skip invoke) (fun _ => Retains (rule.layout typeOf sig) s) (fun e _ => Excused tame e) t :=
  wp_mono (same_skip hk (hs.retains ht).skip) (fun _ _ hu => ht.trans hu.retains) fun _ _ h => h

/-- A pattern teaches what was computed from it. -/
theorem teaches_run (fuel : Nat) {invoke : RuleId → Engine V Match}
    (hk : ∀ id callee, rules[id]? = some callee → Serves typeOf tame rules callee (invoke id))
    (hc : rule.Conforms typeOf sig tame) {p : Pattern} (hp : p.learns rules sig rule known = some known')
    (hs : Poised rules typeOf sig rule known s) :
    Teaches typeOf tame sig rule known' (p.run rules fuel invoke rule) s := by
  -- A context is not restored on a miss, so the induction has to carry that nothing known is lost there; then
  -- what is known before a loop is known in each of its rounds.
  induction p generalizing known known' s with
  | empty =>
    cases hp
    exact (Quiet.pure _).teaches hs
  | one kind =>
    cases hp
    exact (Quiet.matchOne kind).teaches hs
  | text literal =>
    cases hp
    exact (Quiet.matchText literal).teaches hs
  | keyword word =>
    cases hp
    exact (Quiet.matchKeyword word).teaches hs
  | keywords selector words ih =>
    simp only [Teaches, Pattern.run, wp_bind, Engine.wp_here]
    refine wp_mono (ih hp hs) (fun m t ⟨ht, hm⟩ => ?_) fun _ _ h => h
    split
    · exact ⟨ht, hm⟩
    · simp only [wp_bind, Engine.wp_moveTo, Engine.wp_missed]
      obtain ⟨_, _, hn⟩ := (t.scanner.moveTo s.scanner.cursor).note_eq (Pattern.keywords selector words).describe
      rw [hn]
      exact ⟨⟨⟨ht.stack, ht.skipRule⟩, ht.keeps⟩, nofun⟩
  | seq first second ih₁ ih₂ =>
    simp only [Pattern.learns, Option.bind_eq_bind, Option.bind_eq_some_iff] at hp
    obtain ⟨middle, hp₁, hp₂⟩ := hp
    simp only [Teaches, Pattern.run, wp_bind, Engine.wp_here]
    refine wp_mono (ih₁ hp₁ hs) (fun m t ⟨ht, hm⟩ => ?_) fun _ _ h => h
    cases m with
    | miss => exact ⟨ht, nofun⟩
    | hit n =>
      simp only [wp_bind, Engine.wp_here]
      refine wp_mono (same_skip hk (hs.retains ht).skip) (fun _ u hu => ?_) fun _ _ h => h
      have hu : Retains (rule.layout typeOf sig) t u := hu.retains
      have hpoised := ((hs.retains ht).learn (hm rfl)).retains hu
      refine wp_mono (ih₂ hp₂ hpoised) (fun m v ⟨hv, hm⟩ => ?_) fun _ _ h => h
      have hall := (ht.trans hu).trans hv
      match m with
      | .miss => exact ⟨hall.moveTo _, nofun⟩
      | .hit 0 => exact ⟨hall.moveTo _, fun _ => hm rfl⟩
      | .hit (n + 1) => exact ⟨hall, fun _ => hm rfl⟩
  | alt first second ih₁ ih₂ =>
    simp only [Pattern.learns, Option.bind_eq_bind, Option.bind_eq_some_iff, Option.pure_def,
      Option.some.injEq] at hp
    obtain ⟨known₁, hp₁, known₂, hp₂, rfl⟩ := hp
    simp only [Teaches, Pattern.run, wp_bind, Engine.wp_here]
    refine wp_mono (ih₁ hp₁ hs) (fun m t ⟨ht, hm⟩ => ?_) fun _ _ h => h
    cases m with
    | hit n => exact ⟨ht, fun _ slot h => hm rfl slot (List.mem_of_mem_filter h)⟩
    | miss =>
      refine wp_mono (ih₂ hp₂ (hs.retains (ht.moveTo _))) (fun m u ⟨hu, hm⟩ => ?_) fun _ _ h => h
      refine ⟨(ht.moveTo _).trans hu, fun h slot hslot => hm h slot ?_⟩
      simpa using (List.mem_filter.1 hslot).2
  | diff subject excluded ih₁ ih₂ =>
    simp only [Pattern.learns, Option.bind_eq_bind, Option.bind_eq_some_iff, Option.pure_def,
      Option.some.injEq] at hp
    obtain ⟨_, hp₁, _, hp₂, rfl⟩ := hp
    simp only [Teaches, Pattern.run, wp_bind, Engine.wp_here]
    refine wp_mono (ih₁ hp₁ hs) (fun m t ⟨ht, hm⟩ => ?_) fun _ _ h => h
    cases m with
    | miss => exact ⟨ht.moveTo _, nofun⟩
    | hit n =>
      simp only [wp_bind, Engine.wp_here, Engine.wp_moveTo]
      have hback := ht.moveTo s.scanner.cursor
      refine wp_mono (ih₂ hp₂ ((hs.retains hback).learn (hm rfl))) (fun m u ⟨hu, _⟩ => ?_) fun _ _ h => h
      split
      · exact ⟨(hback.trans hu).moveTo _, nofun⟩
      · exact ⟨(hback.trans hu).moveTo _, fun _ => Layout.Knows.keeps (hm rfl) hu.keeps⟩
  | list item separator ih₁ ih₂ =>
    simp only [Pattern.learns, Option.bind_eq_bind, Option.bind_eq_some_iff, Option.pure_def,
      Option.some.injEq] at hp
    obtain ⟨_, hp₁, _, hp₂, rfl⟩ := hp
    simp only [Teaches, Pattern.run, wp_bind, Engine.wp_here]
    refine wp_mono (ih₁ hp₁ hs) (fun m t ⟨ht, hm⟩ => ?_) fun _ _ h => h
    cases m with
    | miss => exact ⟨ht, nofun⟩
    | hit n =>
      have hpoised := (hs.retains ht).learn (hm rfl)
      have hloop := retains_repeatItems (fun u hu => hpoised.skips hk hu)
        (fun u hu => wp_mono (ih₂ hp₂ (hpoised.retains hu)) (fun _ _ h => hu.trans h.1) fun _ _ h => h)
        (fun u hu => wp_mono (ih₁ hp₁ ((hs.retains ht).retains hu)) (fun _ _ h => hu.trans h.1) fun _ _ h => h)
        fuel .rfl
      refine wp_then hloop fun _ u hu => ?_
      exact ⟨ht.trans hu, fun _ => Layout.Knows.keeps (hm rfl) hu.keeps⟩
  | opt subject ih =>
    simp only [Pattern.learns, Option.bind_eq_bind, Option.bind_eq_some_iff, Option.pure_def,
      Option.some.injEq] at hp
    obtain ⟨_, hp, rfl⟩ := hp
    simp only [Teaches, Pattern.run, wp_bind, Engine.wp_here]
    refine wp_mono (ih hp hs) (fun m t ⟨ht, _⟩ => ?_) fun _ _ h => h
    cases m with
    | hit n => exact ⟨ht, fun _ => hs.known.keeps ht.keeps⟩
    | miss => exact ⟨ht.moveTo _, fun _ => hs.known.keeps ht.keeps⟩
  | many subject ih =>
    simp only [Pattern.learns, Option.bind_eq_bind, Option.bind_eq_some_iff, Option.pure_def,
      Option.some.injEq] at hp
    obtain ⟨_, hp, rfl⟩ := hp
    simp only [Teaches, Pattern.run, wp_bind, Engine.wp_here]
    have hloop := retains_repeatBody (fun t ht => hs.skips hk ht)
      (fun t ht => wp_mono (ih hp (hs.retains ht)) (fun _ _ h => ht.trans h.1) fun _ _ h => h) fuel true .rfl
    exact wp_mono hloop (fun _ t ht => ⟨ht, fun _ => hs.known.keeps ht.keeps⟩) fun _ _ h => h
  | many1 subject ih =>
    simp only [Teaches, Pattern.run, wp_bind, Engine.wp_here]
    refine wp_mono (ih hp hs) (fun m t ⟨ht, hm⟩ => ?_) fun _ _ h => h
    cases m with
    | miss => exact ⟨ht, nofun⟩
    | hit n =>
      have hpoised := hs.retains ht
      have hloop := retains_repeatBody (fun u hu => hpoised.skips hk hu)
        (fun u hu => wp_mono (ih hp (hpoised.retains hu)) (fun _ _ h => hu.trans h.1) fun _ _ h => h)
        fuel false .rfl
      refine wp_then hloop fun _ u hu => ?_
      exact ⟨ht.trans hu, fun _ => Layout.Knows.keeps (hm rfl) hu.keeps⟩
  | expect subject ih =>
    simp only [Teaches, Pattern.run, wp_bind]
    refine wp_mono (ih hp hs) (fun m t ⟨ht, hm⟩ => ?_) fun _ _ h => h
    cases m with
    | hit n => exact ⟨ht, fun _ => hm rfl⟩
    | miss =>
      simp only [wp_bind, wp_get, wp_throw]
      exact .inl ⟨_, _, rfl⟩
  | token subject ih =>
    simp only [Teaches, Pattern.run, Engine.wp_bracket]
    have hpoised : Poised rules typeOf sig rule known { s with scanner := s.scanner.beginToken } :=
      ⟨hs.skip.kept rfl, hs.attributes, hs.known⟩
    refine wp_mono (ih hp hpoised) (fun m t ⟨ht, hm⟩ => ?_) fun _ _ h => h
    exact ⟨⟨⟨ht.stack, ht.skipRule⟩, ht.keeps⟩, hm⟩
  | lookahead subject ih =>
    simp only [Teaches, Pattern.run, wp_bind, Engine.wp_here]
    refine wp_mono (ih hp hs) (fun m t ⟨ht, hm⟩ => ⟨ht.moveTo _, fun h => hm ?_⟩) fun _ _ h => h
    cases m with
    | hit n => rfl
    | miss => nomatch h
  | notAhead subject ih =>
    simp only [Pattern.learns, Option.bind_eq_bind, Option.bind_eq_some_iff, Option.pure_def,
      Option.some.injEq] at hp
    obtain ⟨_, hp, rfl⟩ := hp
    simp only [Teaches, Pattern.run, wp_bind, Engine.wp_here]
    refine wp_mono (ih hp hs) (fun m t ⟨ht, _⟩ => ?_) fun _ _ h => h
    exact ⟨ht.moveTo _, fun _ => hs.known.keeps ht.keeps⟩
  | act action subject ih =>
    simp only [Pattern.learns, Option.bind_eq_bind, Option.bind_eq_some_iff,
      Option.ite_none_right_eq_some, Option.isSome_iff_exists] at hp
    obtain ⟨matched, hp, ⟨f, hf⟩, hafter⟩ := hp
    simp only [Teaches, Pattern.run, wp_bind, Engine.wp_here]
    refine wp_mono (ih hp hs) (fun m t ⟨ht, hm⟩ => ?_) fun _ _ h => h
    cases m with
    | miss => exact ⟨ht, nofun⟩
    | hit n =>
      refine wp_mono (teaches_runAction hc hf hafter (hm rfl) s.scanner.cursor n) (fun m u ⟨hu, hm⟩ => ?_)
        fun _ _ h => h
      exact ⟨ht.trans hu, hm⟩
  | call c => exact teaches_performCall hk hc hp hs

/-! ## Rules -/

theorem find?_attribute {attributes more : List Attribute} (hn : (attributes.map (·.name)).Nodup)
    {a : Attribute} (ha : a ∈ attributes) : (attributes ++ more).find? (·.name == a.name) = some a := by
  induction attributes with
  | nil => nomatch ha
  | cons b bs ih =>
    rw [List.map_cons, List.nodup_cons] at hn
    rw [List.cons_append, List.find?_cons]
    rcases List.mem_cons.1 ha with rfl | ha
    · simp
    · have hne : b.name ≠ a.name := fun h => hn.1 (h ▸ List.mem_map_of_mem ha)
      rw [beq_false_of_ne hne]
      exact ih hn.2 ha

/-- Binding further names does not change what a name is bound to. -/
theorem get?_foldl_insert {name : String} {bindings : List (Attribute × V)}
    (h : ∀ b ∈ bindings, name ≠ b.1.name) (bs : Bindings V) :
    (bindings.foldl (fun vars b => Bindings.insert vars b.1.name b.2) bs).get? name = bs.get? name := by
  induction bindings generalizing bs with
  | nil => rfl
  | cons b bindings ih =>
    rw [List.foldl_cons, ih fun c hc => h c (List.mem_cons_of_mem _ hc)]
    exact Bindings.get?_insert_ne _ _ (h b List.mem_cons_self)

theorem get?_enter {attributes : List Attribute} (hn : (attributes.map (·.name)).Nodup) {args : List V}
    (ha : args.map typeOf = attributes.map (·.typeName)) {a : Attribute} (hmem : a ∈ attributes)
    (bs : Bindings V) :
    ∃ v, ((attributes.zip args).foldl (fun vars b => Bindings.insert vars b.1.name b.2) bs).get? a.name =
      some v ∧ typeOf v = a.typeName := by
  induction attributes generalizing args bs with
  | nil => nomatch hmem
  | cons b attributes ih =>
    cases args with
    | nil => nomatch ha
    | cons v args =>
      rw [List.map_cons, List.nodup_cons] at hn
      rw [List.map_cons, List.map_cons, List.cons.injEq] at ha
      rw [List.zip_cons_cons, List.foldl_cons]
      rcases List.mem_cons.1 hmem with rfl | hmem
      · refine ⟨v, ?_, ha.1⟩
        rw [get?_foldl_insert, Bindings.get?_insert_self]
        intro c hc hname
        exact hn.1 (hname ▸ List.mem_map_of_mem (List.of_mem_zip hc).1)
      · exact ih hn.2 ha.2 hmem _

/-- A rule that is entered with arguments of the declared types knows its attributes. -/
theorem knows_enter (hn : (rule.attributes.map (·.name)).Nodup) {args : List V}
    (ha : args.map typeOf = rule.attributes.map (·.typeName)) (start : Nat) :
    (rule.layout typeOf sig).Knows rule.attributeSlots (.enter rule.attributes args start) := by
  intro slot hslot
  obtain ⟨a, hmem, rfl⟩ := List.mem_map.1 hslot
  obtain ⟨v, hv, ht⟩ := get?_enter hn ha hmem []
  refine ⟨v, hv, ?_⟩
  show ((rule.attributes ++ sig.locals).find? (·.name == a.name)).map (·.typeName) = _
  rw [find?_attribute hn hmem]
  exact congrArg some ht.symm

/-- A rule that leaves with its value known delivers it. -/
theorem delivers_leave {before : State V} {below : Stack V} {m : Match}
    (hskip : s.scanner.skipRule = before.scanner.skipRule) (hstack : s.stack = below)
    (hvalue : m.isHit = true → rule.hasValue = true → (rule.layout typeOf sig).Filled s.context .value) :
    wp (Engine.leave rule before (.ok m)) (fun r t => rule.Delivers typeOf r below t.stack ∧
      t.context = before.context ∧ t.scanner.skipRule = before.scanner.skipRule)
      (fun e _ => Excused tame e) s := by
  subst hstack
  -- Without a value on top there is nothing to be said about its type.
  have hne : ∀ v, s.stack ≠ s.stack.push v := by
    intro v h
    simpa [Stack.push] using congrArg (·.values.length) h
  unfold Engine.leave
  simp only [wp_bind, Engine.wp_onScanner]
  obtain ⟨_, hl⟩ := s.scanner.leaveRule_eq rule.qualifiedName before.scanner.cursor m.isHit
  rw [hl]
  cases m with
  | miss =>
    refine ⟨⟨rfl, fun v h => absurd h (hne v)⟩, rfl, hskip⟩
  | hit n =>
    simp only [wp_bind, Engine.pushValue, Engine.wp_setContext]
    cases hv : rule.hasValue with
    | false =>
      refine ⟨⟨?_, fun v h => absurd h (hne v)⟩, rfl, hskip⟩
      simp [Rule.Returns, hv]
    | true =>
      obtain ⟨v, hslot, htype⟩ := hvalue rfl hv
      have hctx : s.context.value = some v := hslot
      simp only [if_true, wp_bind, wp_get, hctx]
      refine ⟨⟨?_, fun w h => ?_⟩, rfl, hskip⟩
      · simp only [Rule.Returns, hv, Match.isHit, Bool.and_self, if_true]
        exact ⟨v, rfl⟩
      · have hvw : v = w := by simpa [Stack.push] using h
        exact hvw ▸ htype

theorem serves_matchRule {body : Engine V Match} (hn : (rule.attributes.map (·.name)).Nodup)
    (hvalue : rule.hasValue = true → .value ∈ known)
    (hbody : ∀ t, Poised rules typeOf sig rule [] t → Teaches typeOf tame sig rule known body t) :
    Serves typeOf tame rules rule (Engine.matchRule rule body) := by
  intro s args below hs hstack hargs
  have hlen : args.length = rule.arity := by
    rw [Rule.arity, ← List.length_map typeOf, hargs, List.length_map]
  unfold Engine.matchRule
  simp only [wp_bind, wp_get, Engine.wp_attempt]
  refine wp_mono (Tidy.enter hstack hlen).2 (fun _ t ⟨ht, hctx, hsk⟩ => ?_) fun _ _ => False.elim
  have hpoised : Poised rules typeOf sig rule [] t :=
    ⟨hs.kept hsk, hctx ▸ knows_enter hn hargs _, Layout.knows_nil⟩
  refine wp_mono (hbody t hpoised) (fun m u ⟨hu, hm⟩ => ?_) fun e u he => ?_
  · exact delivers_leave (hu.skipRule.trans hsk) (hu.stack.trans ht) fun hit hv => hm hit _ (hvalue hv)
  · exact he

/-- In a table of rules that conform and pass the check, every rule serves. -/
theorem serves_invoke {sigs : Rule V → Signature}
    (hc : ∀ (id : RuleId) rule, rules[id]? = some rule → rule.Conforms typeOf (sigs rule) tame)
    (hp : ∀ (id : RuleId) rule, rules[id]? = some rule → rule.checks rules (sigs rule) = true)
    (fuel : Nat) (id : RuleId) (rule : Rule V) (hid : rules[id]? = some rule) :
    Serves typeOf tame rules rule (Engine.invoke rules fuel id) := by
  induction fuel generalizing id rule with
  | zero => exact fun _ _ _ _ _ _ => trivial
  | succ fuel ih =>
    unfold Engine.invoke
    rw [hid]
    have hcheck := hp id rule hid
    simp only [Rule.checks, Bool.and_eq_true, decide_eq_true_eq, Option.any_eq_true, Bool.or_eq_true,
      Bool.not_eq_true', List.contains_iff_mem] at hcheck
    obtain ⟨hn, known, hlearn, hvalue⟩ := hcheck
    have hbody : ∀ t, Poised rules typeOf (sigs rule) rule [] t →
        Teaches typeOf tame (sigs rule) rule known _ t := fun t ht =>
      teaches_run fuel ih (hc id rule hid) hlearn ht
    exact serves_matchRule hn (fun hv => hvalue.resolve_left (by simp [hv])) hbody

end

/-! ## Parses -/

section
variable {typeOf : V → String} {tame : Cause → Prop} {rules : Array (Rule V)} {rule : Rule V} {s : State V}

theorem serves_matchStart {invoke : RuleId → Engine V Match}
    (hk : ∀ id callee, rules[id]? = some callee → Serves typeOf tame rules callee (invoke id))
    {start : RuleId} (hstart : rules[start]? = some rule) {args : List V} {below : Stack V}
    (hs : SkipReady rules s) (hstack : s.stack = below.pushAll args)
    (hargs : args.map typeOf = rule.attributes.map (·.typeName)) :
    wp (Engine.matchStart invoke start) (fun m t => rule.Delivers typeOf m below t.stack)
      (fun e _ => Excused tame e) s := by
  refine wp_then (same_skip hk hs) fun _ t ht => ?_
  have hserve := hk start rule hstart t args below (hs.kept ht.skipRule) (ht.stack.trans hstack) hargs
  refine wp_then hserve fun m u ⟨hd, _, hsk⟩ => ?_
  cases m with
  | miss => exact hd
  | hit n =>
    refine wp_then (same_skip hk (hs.kept (hsk.trans ht.skipRule))) fun _ v hv => ?_
    show rule.Delivers typeOf _ below v.stack
    rw [hv.stack]
    exact hd

/-- A parse with arguments of the declared types ends with a value of the declared type, unless it stops for
a reason that no rule is to blame for. -/
theorem Domain.Linked.parseIn_typed {d : Domain V} (hd : d.Linked) {sigs : Rule V → Signature}
    (hc : ∀ (id : RuleId) rule, d.rules[id]? = some rule → rule.Conforms typeOf (sigs rule) tame)
    (hp : ∀ (id : RuleId) rule, d.rules[id]? = some rule → rule.checks d.rules (sigs rule) = true)
    {g : Grammar} (hg : g ∈ d.grammars) {start : RuleId} (hstart : g.start = some start)
    (hrule : d.rules[start]? = some rule) (source : String) (options : Options) {args : List V}
    (hargs : args.map typeOf = rule.attributes.map (·.typeName)) (session : Session V) :
    (∃ v, (d.parseIn g source options args session).1 = .ok v ∧ v.map typeOf = rule.valueType) ∨
      ∃ e, (d.parseIn g source options args session).1 = .error e ∧ Excused tame e := by
  have hlen : args.length = rule.arity := by
    rw [Rule.arity, ← List.length_map typeOf, hargs, List.length_map]
  rw [parseIn_eq hstart hrule source options hlen]
  have hrun : wp (Engine.matchStart _ start) (fun m t => rule.Delivers typeOf m session.stack t.stack) _ _ :=
    serves_matchStart (serves_invoke hc hp (d.fuelOf source)) hrule
      (hd.skipReady hg source options (session.stack.pushAll args)) rfl hargs
  unfold Engine.runStart
  rw [outcome_bind]
  rcases hm : outcome (Engine.matchStart (Engine.invoke d.rules (d.fuelOf source)) start)
    (startState g source options (session.stack.pushAll args)) with ⟨e | m, t⟩
  · exact .inr ⟨e, rfl, wp_error hrun hm⟩
  · have hdelivers := wp_ok hrun hm
    dsimp only
    rw [outcome_endStart hdelivers.returns]
    split
    · exact .inr ⟨_, rfl, .inl ⟨_, _, rfl⟩⟩
    · next hend =>
      refine .inl ⟨_, rfl, ?_⟩
      cases hv : rule.hasValue with
      | false =>
        have hnone : rule.valueType = none := by simpa [Rule.hasValue] using hv
        rw [hnone]
        rfl
      | true =>
        have hhit : m.isHit = true := by
          cases m with
          | hit n => rfl
          | miss => simp [Match.isMiss] at hend
        obtain ⟨v, hstack⟩ : ∃ v, t.stack = session.stack.push v := by
          simpa [Rule.Returns, hhit, hv] using hdelivers.returns
        rw [hdelivers.typed v hstack, hstack]
        rfl

end

end PegFront
