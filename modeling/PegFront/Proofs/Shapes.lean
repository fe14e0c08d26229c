import PegFront.Proofs.Derivation

/-!
# Derivations of common shapes

Grammars put the operators together in a few ways again and again: chars and literals inside a token, calls of
rules, a part followed by rounds of another. Here is what such a shape comes to, so that the derivations of a
grammar need not go into its operators.
-/

namespace PegFront

variable {V : Type}

/-- What a caller makes of the answer of a rule without a value. -/
def Answer.resume (ctx : Context V) : Answer V → Answer V
  | .hit _ d => .hit ctx d
  | .miss _ => .miss ctx
  | .stop => .stop

namespace Cursor

variable {c d : Cursor} {x : List Char} {ch : Char}

theorem next?_eq_some_iff : c.next? = some (ch, d) ↔ c.Spans [ch] d := by
  refine ⟨Spans.next, fun h => ?_⟩
  obtain ⟨o, t⟩ := d
  have hr := h.rest
  have ho := h.offset
  rw [List.singleton_append] at hr
  rw [next?, hr]
  simp only [Text.byteLength, Nat.add_zero] at ho
  rw [ho]

theorem next?_map_fst : c.next?.map Prod.fst = c.rest.head? := by
  unfold next?
  cases c.rest <;> rfl

theorem next?_any (p : Char → Bool) : (c.next?.any fun (ch, _) => p ch) = c.rest.head?.any p := by
  unfold next?
  cases c.rest <;> rfl

theorem after?_eq_some_iff : c.after? x = some d ↔ c.Spans x d := by
  refine ⟨Spans.after, fun h => ?_⟩
  induction x generalizing c with
  | nil => rw [h.unique .rfl, after?]
  | cons ch x ih =>
    obtain ⟨c₁, h₁, h₂⟩ := spans_append.1 (show c.Spans ([ch] ++ x) d from h)
    have hc₁ : (⟨c.offset + ch.utf8Size, c₁.rest⟩ : Cursor) = c₁ :=
      Spans.unique ⟨h₁.rest, by simp [Text.byteLength]⟩ h₁
    have hr : c.rest = ch :: c₁.rest := h₁.rest
    unfold after?
    simp only [hr, if_true]
    rw [hc₁, ih h₂]

theorem exists_spans (h : x <+: c.rest) : ∃ d, c.Spans x d := by
  obtain ⟨t, ht⟩ := h
  exact ⟨⟨c.offset + Text.byteLength x, t⟩, ht.symm, rfl⟩

/-- A text up to the first char that is not accepted. -/
theorem exists_run (kind : CharKind) (c : Cursor) : ∃ x d, c.Spans x d ∧ (∀ ch ∈ x, kind.accepts ch = true) ∧
    ∀ ch ∈ d.rest.head?, kind.accepts ch = false := by
  refine ⟨c.rest.takeWhile kind.accepts, ⟨c.offset + Text.byteLength (c.rest.takeWhile kind.accepts),
    c.rest.dropWhile kind.accepts⟩, ⟨List.takeWhile_append_dropWhile.symm, rfl⟩, ?_, ?_⟩
  · exact List.all_eq_true.1 List.all_takeWhile
  · intro ch h
    have := List.head?_dropWhile_not kind.accepts c.rest
    rw [Option.mem_def] at h
    rw [h] at this
    simpa using this

theorem after?_eq_none_iff : c.after? x = none ↔ ¬ x <+: c.rest := by
  constructor
  · rintro h ⟨t, ht⟩
    have := after?_eq_some_iff.2 (⟨ht.symm, rfl⟩ : c.Spans x ⟨c.offset + Text.byteLength x, t⟩)
    rw [h] at this
    cases this
  · intro h
    cases ha : c.after? x with
    | none => rfl
    | some d => exact absurd ⟨d.rest, (Spans.after ha).rest.symm⟩ h

end Cursor

namespace Derives

variable {w : World V} {skip : Option RuleId} {rule : Rule V} {a b p : Pattern} {ctx ctx₁ ctx₂ : Context V}
  {c c₁ d : Cursor} {id : RuleId} {args : List V} {r : Answer V} {kind : CharKind} {x : List Char}

/-! ## Terminals -/

theorem one_of_spans {ch : Char} (h : c.Spans [ch] d) (ha : kind.accepts ch = true) :
    Derives w skip (.pattern rule (.one kind) ctx) c (.hit ctx d) :=
  .one_hit (Cursor.next?_eq_some_iff.2 h) ha

theorem one_of_head (h : ∀ ch ∈ c.rest.head?, kind.accepts ch = false) :
    Derives w skip (.pattern rule (.one kind) ctx) c (.miss ctx) := by
  refine .one_miss fun ch d hn => h ch ?_
  rw [← Cursor.next?_map_fst, hn]
  rfl

theorem char_of_spans {ch : Char} (h : c.Spans [ch] d) :
    Derives w skip (.pattern rule (.char ch) ctx) c (.hit ctx d) :=
  one_of_spans h (beq_self_eq_true ch)

theorem char_of_head {ch : Char} (h : c.rest.head? ≠ some ch) :
    Derives w skip (.pattern rule (.char ch) ctx) c (.miss ctx) :=
  one_of_head fun _ h' => beq_eq_false_iff_ne.2 fun he => h (he ▸ h')

theorem text_of_spans {literal : String} (h : c.Spans literal.toList d) :
    Derives w skip (.pattern rule (.text literal) ctx) c (.hit ctx d) :=
  .text_hit (Cursor.after?_eq_some_iff.2 h)

theorem text_of_no_match {literal : String} (h : ¬ literal.toList <+: c.rest) :
    Derives w skip (.pattern rule (.text literal) ctx) c (.miss ctx) :=
  .text_miss (Cursor.after?_eq_none_iff.2 h)

/-! ## Tokens -/

/-- A sequence inside a token. -/
theorem seq_tight (ha : Derives w none (.pattern rule a ctx) c (.hit ctx₁ c₁))
    (hb : Derives w none (.pattern rule b ctx₁) c₁ (.hit ctx₂ d)) :
    Derives w none (.pattern rule (.seq a b) ctx) c (.hit ctx₂ d) := by
  by_cases hd : d.offset = c₁.offset
  · obtain ⟨x, hx⟩ := hb.spans
    obtain rfl := Text.eq_nil_of_byteLength (show Text.byteLength x = 0 by have := hx.offset; omega)
    obtain rfl := hx.unique .rfl
    exact .seq_empty ha .skip_none hb rfl
  · exact .seq_hit ha .skip_none hb hd

theorem skip_ite (first : Bool) : Derives w (if first then none else none) (.skip ctx) c (.hit ctx c) := by
  cases first <;> exact .skip_none

/-- Rounds that each take one char, inside a token. -/
theorem rounds_chars (kind : CharKind) (hx : ∀ ch ∈ x, kind.accepts ch = true) (hc : c.Spans x d)
    (hd : ∀ ch ∈ d.rest.head?, kind.accepts ch = false) (first : Bool) :
    Derives w none (.rounds rule (.one kind) first ctx) c (.hit ctx d) := by
  induction x generalizing c first with
  | nil =>
    obtain rfl := hc.unique .rfl
    by_cases hr : d.rest = []
    · exact .rounds_end hr
    · exact .rounds_miss hr (skip_ite first) (one_of_head hd)
  | cons ch x ih =>
    obtain ⟨c₁, h₁, h₂⟩ := Cursor.spans_append.1 (show c.Spans ([ch] ++ x) d from hc)
    have hr : c.rest ≠ [] := by rw [h₁.rest]; exact nofun
    exact .rounds_hit hr (skip_ite first) (one_of_spans h₁ (hx ch List.mem_cons_self))
      (ih (fun ch' h' => hx ch' (List.mem_cons_of_mem ch h')) h₂ false)

/-! ## Rules and calls -/

/-- A rule without a value answers as its pattern does. -/
theorem rule_plain (hr : w.rules[id]? = some rule) (ha : args.length = rule.arity) (hv : rule.hasValue = false)
    (h : Derives w skip (.pattern rule rule.definition (.enter rule.attributes args c.offset)) c r) :
    Derives w skip (.rule id args) c r := by
  cases r with
  | hit => exact .rule_hit hr ha h (by simp [hv])
  | miss => exact .rule_miss hr ha h
  | stop => exact .rule_stop hr ha h

theorem call_plain {caller callee : Rule V} {call : Call} (ht : call.target = some id)
    (hc : w.rules[id]? = some callee) (ha : caller.argumentsOf call ctx = []) (hz : call.arity = 0)
    (hv : callee.hasValue = false) (h : Derives w skip (.rule id []) c r) :
    Derives w skip (.pattern caller (.call call) ctx) c (r.resume ctx) := by
  have hl : (caller.argumentsOf call ctx).length = call.arity := by rw [ha, hz]; rfl
  rw [← ha] at h
  cases r with
  | hit ctx' d =>
    have hcall := Derives.call_hit ht hl hc h
    simp only [Rule.receive, hv] at hcall
    exact hcall
  | miss => exact .call_miss ht hl h
  | stop => exact .call_stop ht hl h

/-- A call keeps the value the called rule has. -/
theorem call_value {caller callee : Rule V} {call : Call} {v : V} (ht : call.target = some id)
    (hc : w.rules[id]? = some callee) (hl : (caller.argumentsOf call ctx).length = call.arity)
    (hv : callee.hasValue = true) (h : Derives w skip (.rule id (caller.argumentsOf call ctx)) c (.hit ctx₁ d))
    (h₁ : ctx₁.value = some v) :
    Derives w skip (.pattern caller (.call call) ctx) c (.hit (caller.takeUp call.label ctx v) d) := by
  have hcall := Derives.call_hit ht hl hc h
  simp only [Rule.receive, hv, h₁] at hcall
  exact hcall

/-! ## Actions that may refuse a match -/

/-- The action of a predicate. -/
def checking (f : Context V → Matched → Bool × Context V) : Action V := fun ctx m =>
  let (ok, ctx) := f ctx m
  (.ofBool ok, ctx)

theorem act_true {name : String} (f : Context V → Matched → Bool × Context V)
    (hf : rule.action? name = some (checking f)) (h : Derives w skip (.pattern rule p ctx) c (.hit ctx₁ d))
    (hv : f ctx₁ (w.matched c d) = (true, ctx₂)) :
    Derives w skip (.pattern rule (.act name p) ctx) c (.hit ctx₂ d) := by
  refine .act_pass h hf ?_
  simp only [checking, hv]
  rfl

theorem act_false {name : String} (f : Context V → Matched → Bool × Context V)
    (hf : rule.action? name = some (checking f)) (h : Derives w skip (.pattern rule p ctx) c (.hit ctx₁ d))
    (hv : f ctx₁ (w.matched c d) = (false, ctx₂)) :
    Derives w skip (.pattern rule (.act name p) ctx) c (.miss ctx₂) := by
  refine .act_reject h hf ?_
  simp only [checking, hv]
  rfl

/-! ## Choices -/

theorem foldl_alt (hr : ∀ ctx, r ≠ .miss ctx) (h : Derives w skip (.pattern rule p ctx) c r) (ps : List Pattern) :
    Derives w skip (.pattern rule (ps.foldl .alt p) ctx) c r := by
  induction ps generalizing p with
  | nil => exact h
  | cons q ps ih =>
    refine ih ?_
    cases r with
    | hit => exact .alt_first h
    | miss ctx => exact absurd rfl (hr ctx)
    | stop => exact .alt_stop h

/-- The first option that does not miss decides. -/
theorem choice_first {before : List Pattern} (hr : ∀ ctx, r ≠ .miss ctx)
    (hm : ∀ q ∈ before, Derives w skip (.pattern rule q ctx) c (.miss ctx))
    (h : Derives w skip (.pattern rule p ctx) c r) (after : List Pattern) :
    Derives w skip (.pattern rule (.choice (before ++ p :: after)) ctx) c r := by
  have go : ∀ (before : List Pattern) (acc : Pattern), Derives w skip (.pattern rule acc ctx) c (.miss ctx) →
      (∀ q ∈ before, Derives w skip (.pattern rule q ctx) c (.miss ctx)) →
      Derives w skip (.pattern rule ((before ++ p :: after).foldl .alt acc) ctx) c r := by
    intro before
    induction before with
    | nil => exact fun acc hacc _ => foldl_alt hr (.alt_second hacc h) after
    | cons q before ih =>
      intro acc hacc hm
      exact ih (.alt acc q) (.alt_second hacc (hm q List.mem_cons_self))
        fun q' h' => hm q' (List.mem_cons_of_mem _ h')
  cases before with
  | nil => exact foldl_alt hr h after
  | cons q before =>
    exact go before q (hm q List.mem_cons_self) fun q' h' => hm q' (List.mem_cons_of_mem _ h')

theorem choice_miss {ps : List Pattern} (hne : ps ≠ [])
    (hm : ∀ q ∈ ps, Derives w skip (.pattern rule q ctx) c (.miss ctx)) :
    Derives w skip (.pattern rule (.choice ps) ctx) c (.miss ctx) := by
  have go : ∀ (ps : List Pattern) (acc : Pattern), Derives w skip (.pattern rule acc ctx) c (.miss ctx) →
      (∀ q ∈ ps, Derives w skip (.pattern rule q ctx) c (.miss ctx)) →
      Derives w skip (.pattern rule (ps.foldl .alt acc) ctx) c (.miss ctx) := by
    intro ps
    induction ps with
    | nil => exact fun acc hacc _ => hacc
    | cons q ps ih =>
      intro acc hacc hm
      exact ih (.alt acc q) (.alt_second hacc (hm q List.mem_cons_self))
        fun q' h' => hm q' (List.mem_cons_of_mem _ h')
  cases ps with
  | nil => exact absurd rfl hne
  | cons q ps => exact go ps q (hm q List.mem_cons_self) fun q' h' => hm q' (List.mem_cons_of_mem _ h')

/-! ## What a hit tells -/

theorem one_inv (h : Derives w skip (.pattern rule (.one kind) ctx) c (.hit ctx₁ d)) :
    ctx₁ = ctx ∧ ∃ ch, c.Spans [ch] d ∧ kind.accepts ch = true := by
  cases h with
  | one_hit hn ha => exact ⟨rfl, _, .next hn, ha⟩

theorem text_inv {literal : String} (h : Derives w skip (.pattern rule (.text literal) ctx) c (.hit ctx₁ d)) :
    ctx₁ = ctx ∧ c.Spans literal.toList d := by
  cases h with
  | text_hit h => exact ⟨rfl, .after h⟩

theorem char_inv {ch : Char} (h : Derives w skip (.pattern rule (.char ch) ctx) c (.hit ctx₁ d)) :
    ctx₁ = ctx ∧ c.Spans [ch] d := by
  obtain ⟨hctx, ch', hc, ha⟩ := one_inv h
  obtain rfl : ch' = ch := eq_of_beq ha
  exact ⟨hctx, hc⟩

theorem seq_inv (h : Derives w skip (.pattern rule (.seq a b) ctx) c (.hit ctx₂ d)) :
    ∃ ctx₁ c₁ c₂ e, Derives w skip (.pattern rule a ctx) c (.hit ctx₁ c₁) ∧
      Derives w skip (.skip ctx₁) c₁ (.hit ctx₁ c₂) ∧ Derives w skip (.pattern rule b ctx₁) c₂ (.hit ctx₂ e) ∧
      (e.offset ≠ c₂.offset ∧ d = e ∨ e = c₂ ∧ d = c₁) := by
  cases h with
  | seq_hit ha hs hb hd => exact ⟨_, _, _, _, ha, hs, hb, .inl ⟨hd, rfl⟩⟩
  | seq_empty ha hs hb hd =>
    refine ⟨_, _, _, _, ha, hs, hb, .inr ⟨?_, rfl⟩⟩
    obtain ⟨x, hx⟩ := hb.spans
    obtain rfl := Text.eq_nil_of_byteLength (show Text.byteLength x = 0 by have := hx.offset; omega)
    exact hx.unique .rfl

theorem seq_tight_inv (h : Derives w none (.pattern rule (.seq a b) ctx) c (.hit ctx₂ d)) :
    ∃ ctx₁ c₁, Derives w none (.pattern rule a ctx) c (.hit ctx₁ c₁) ∧
      Derives w none (.pattern rule b ctx₁) c₁ (.hit ctx₂ d) := by
  obtain ⟨ctx₁, c₁, c₂, e, ha, hs, hb, hd⟩ := seq_inv h
  cases hs
  obtain ⟨-, rfl⟩ | ⟨rfl, rfl⟩ := hd <;> exact ⟨_, _, ha, hb⟩

theorem alt_inv (h : Derives w skip (.pattern rule (.alt a b) ctx) c (.hit ctx₂ d)) :
    Derives w skip (.pattern rule a ctx) c (.hit ctx₂ d) ∨
      ∃ ctx₁, Derives w skip (.pattern rule a ctx) c (.miss ctx₁) ∧
        Derives w skip (.pattern rule b ctx₁) c (.hit ctx₂ d) := by
  cases h with
  | alt_first ha => exact .inl ha
  | alt_second ha hb => exact .inr ⟨_, ha, hb⟩

theorem choice_inv {ps : List Pattern} (hne : ps ≠ [])
    (h : Derives w skip (.pattern rule (.choice ps) ctx) c (.hit ctx₂ d)) :
    ∃ p ∈ ps, ∃ ctx₁, Derives w skip (.pattern rule p ctx₁) c (.hit ctx₂ d) := by
  have go : ∀ (ps : List Pattern) (acc : Pattern),
      Derives w skip (.pattern rule (ps.foldl .alt acc) ctx) c (.hit ctx₂ d) →
      ∃ p ∈ acc :: ps, ∃ ctx₁, Derives w skip (.pattern rule p ctx₁) c (.hit ctx₂ d) := by
    intro ps
    induction ps with
    | nil => exact fun acc h => ⟨acc, List.mem_cons_self, ctx, h⟩
    | cons q ps ih =>
      intro acc h
      obtain ⟨p, hp, ctx₁, hd⟩ := ih (.alt acc q) h
      rcases List.mem_cons.1 hp with rfl | hp
      · obtain hd | ⟨ctx', -, hd⟩ := alt_inv hd
        · exact ⟨acc, List.mem_cons_self, _, hd⟩
        · exact ⟨q, List.mem_cons_of_mem _ List.mem_cons_self, _, hd⟩
      · exact ⟨p, List.mem_cons_of_mem _ (List.mem_cons_of_mem _ hp), ctx₁, hd⟩
  cases ps with
  | nil => exact absurd rfl hne
  | cons q ps => exact go ps q h

theorem opt_inv (h : Derives w skip (.pattern rule (.opt p) ctx) c (.hit ctx₁ d)) :
    Derives w skip (.pattern rule p ctx) c (.hit ctx₁ d) ∨
      Derives w skip (.pattern rule p ctx) c (.miss ctx₁) ∧ d = c := by
  cases h with
  | opt_hit h => exact .inl h
  | opt_miss h => exact .inr ⟨h, rfl⟩

theorem expect_inv (h : Derives w skip (.pattern rule (.expect p) ctx) c (.hit ctx₁ d)) :
    Derives w skip (.pattern rule p ctx) c (.hit ctx₁ d) := by
  cases h with
  | expect_hit h => exact h

theorem token_inv (h : Derives w skip (.pattern rule (.token p) ctx) c r) :
    Derives w none (.pattern rule p ctx) c r := by
  cases h with
  | token h => exact h

theorem many_inv (h : Derives w skip (.pattern rule (.many p) ctx) c r) :
    Derives w skip (.rounds rule p true ctx) c r := by
  cases h with
  | many h => exact h

theorem many1_inv (h : Derives w skip (.pattern rule (.many1 p) ctx) c (.hit ctx₂ d)) :
    ∃ ctx₁ c₁, Derives w skip (.pattern rule p ctx) c (.hit ctx₁ c₁) ∧
      Derives w skip (.rounds rule p false ctx₁) c₁ (.hit ctx₂ d) := by
  cases h with
  | many1_hit h hr => exact ⟨_, _, h, hr⟩

theorem act_inv {name : String} {f : Action V} (hf : rule.action? name = some f)
    (h : Derives w skip (.pattern rule (.act name p) ctx) c (.hit ctx₂ d)) :
    ∃ ctx₁, Derives w skip (.pattern rule p ctx) c (.hit ctx₁ d) ∧ f ctx₁ (w.matched c d) = (.pass, ctx₂) := by
  cases h with
  | act_pass h hf' hv =>
    cases hf.symm.trans hf'
    exact ⟨_, h, hv⟩

theorem act_true_inv {name : String} (f : Context V → Matched → Bool × Context V)
    (hf : rule.action? name = some (checking f))
    (h : Derives w skip (.pattern rule (.act name p) ctx) c (.hit ctx₂ d)) :
    ∃ ctx₁, Derives w skip (.pattern rule p ctx) c (.hit ctx₁ d) ∧ f ctx₁ (w.matched c d) = (true, ctx₂) := by
  obtain ⟨ctx₁, h, hv⟩ := act_inv hf h
  refine ⟨ctx₁, h, ?_⟩
  rcases hfv : f ctx₁ (w.matched c d) with ⟨_ | _, ctx'⟩ <;> simp only [checking, hfv] at hv <;> cases hv
  rfl

theorem rule_inv (hr : w.rules[id]? = some rule) (h : Derives w skip (.rule id args) c (.hit ctx d)) :
    Derives w skip (.pattern rule rule.definition (.enter rule.attributes args c.offset)) c (.hit ctx d) := by
  cases h with
  | rule_hit hr' ha h hv =>
    cases hr.symm.trans hr'
    exact h

theorem call_inv {caller callee : Rule V} {call : Call} (ht : call.target = some id)
    (hc : w.rules[id]? = some callee) (h : Derives w skip (.pattern caller (.call call) ctx) c (.hit ctx₂ d)) :
    ∃ ctx₁, Derives w skip (.rule id (caller.argumentsOf call ctx)) c (.hit ctx₁ d) ∧
      ctx₂ = caller.receive call callee ctx ctx₁.value := by
  cases h with
  | call_hit ht' hl hc' h =>
    cases ht.symm.trans ht'
    cases hc.symm.trans hc'
    exact ⟨_, h, rfl⟩

/-- Induction over the rounds of a repetition, from the last one back. -/
theorem rounds_rec {first : Bool} {M : Bool → Context V → Cursor → Prop}
    (h : Derives w skip (.rounds rule p first ctx) c (.hit ctx₂ d)) (hend : ∀ first, d.rest = [] → M first ctx₂ d)
    (hmiss : ∀ first ctx c₁, d.rest ≠ [] → Derives w (if first then none else skip) (.skip ctx) d (.hit ctx c₁) →
      Derives w skip (.pattern rule p ctx) c₁ (.miss ctx₂) → M first ctx d)
    (hhit : ∀ first ctx ctx₁ c c₁ c₂, c.rest ≠ [] →
      Derives w (if first then none else skip) (.skip ctx) c (.hit ctx c₁) →
      Derives w skip (.pattern rule p ctx) c₁ (.hit ctx₁ c₂) → M false ctx₁ c₂ → M first ctx c) :
    M first ctx c := by
  generalize hj : Job.rounds rule p first ctx = job at h
  generalize hr : Answer.hit ctx₂ d = r at h
  induction h generalizing first ctx with
  | rounds_end hc => cases hj; cases hr; exact hend _ hc
  | rounds_miss hc hs h => cases hj; cases hr; exact hmiss _ _ _ hc hs h
  | rounds_hit hc hs h _ _ _ ih => cases hj; exact hhit _ _ _ _ _ _ hc hs h (ih hmiss hhit rfl hr)
  | rounds_stop_skip | rounds_stop => cases hr
  | _ => cases hj

/-- Induction over the items of a list, from the last one back. -/
theorem items_rec {item separator : Pattern} {M : Context V → Cursor → Prop}
    (h : Derives w skip (.items rule item separator ctx) c (.hit ctx₂ d)) (hend : ∀ ctx, M ctx d)
    (hhit : ∀ ctx ctx₁ ctx₂ c c₁ c₂ c₃ c₄, Derives w skip (.skip ctx) c (.hit ctx c₁) →
      Derives w skip (.pattern rule separator ctx) c₁ (.hit ctx₁ c₂) → Derives w skip (.skip ctx₁) c₂ (.hit ctx₁ c₃) →
      Derives w skip (.pattern rule item ctx₁) c₃ (.hit ctx₂ c₄) → M ctx₂ c₄ → M ctx c) : M ctx c := by
  generalize hj : Job.items rule item separator ctx = job at h
  generalize hr : Answer.hit ctx₂ d = r at h
  induction h generalizing ctx with
  | items_end => cases hj; cases hr; exact hend _
  | items_back => cases hj; cases hr; exact hend _
  | items_hit hs h hs' hi _ _ _ _ _ ih => cases hj; exact hhit _ _ _ _ _ _ _ _ hs h hs' hi (ih hhit rfl hr)
  | items_stop_skip | items_stop_separator | items_stop_between | items_stop => cases hr
  | _ => cases hj

/-- The rounds over a run of chars. -/
theorem rounds_chars_inv {first : Bool} (h : Derives w none (.rounds rule (.one kind) first ctx) c (.hit ctx₁ d)) :
    ctx₁ = ctx ∧ ∃ x, c.Spans x d ∧ (∀ ch ∈ x, kind.accepts ch = true) ∧
      ∀ ch ∈ d.rest.head?, kind.accepts ch = false := by
  obtain ⟨x, e, hx, hall, hend⟩ := Cursor.exists_run kind c
  cases h.unique (rounds_chars kind hall hx hend first)
  exact ⟨rfl, x, hx, hall, hend⟩

end Derives

end PegFront
