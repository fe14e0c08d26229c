import PegFront.Proofs.Adequacy

/-!
# Errors that actions raise

An action that fails ends the parse. `Raises w skip cause span job c` says that the job, taken up at the place `c`, comes
to such an action before it has read anything else: through the first part of a sequence, through the alternative whose
turn it is, through the rule that is called. No other alternative is tried then. The run stops, and its error has the
cause the action gives and tells of the text the action was given (`Raises.fails`), and so does the answer of the parse
(`parseIn_raises`).
-/

namespace PegFront

variable {V : Type}

inductive Raises (w : World V) (skip : Option RuleId) (cause : Cause) (span : Span) : Job V → Cursor → Prop
  | fail {rule name p f ctx ctx₁ ctx₂ c d} (h : Derives w skip (.pattern rule p ctx) c (.hit ctx₁ d))
      (hf : rule.action? name = some f) (hv : f ctx₁ (w.matched c d) = (.fail cause, ctx₂))
      (hspan : (w.matched c d).span = span) : Raises w skip cause span (.pattern rule (.act name p) ctx) c
  | act {rule name p ctx c} (h : Raises w skip cause span (.pattern rule p ctx) c) :
      Raises w skip cause span (.pattern rule (.act name p) ctx) c
  | seq_first {rule a b ctx c} (h : Raises w skip cause span (.pattern rule a ctx) c) :
      Raises w skip cause span (.pattern rule (.seq a b) ctx) c
  | alt_first {rule a b ctx c} (h : Raises w skip cause span (.pattern rule a ctx) c) :
      Raises w skip cause span (.pattern rule (.alt a b) ctx) c
  | alt_second {rule a b ctx ctx₁ c} (ha : Derives w skip (.pattern rule a ctx) c (.miss ctx₁))
      (h : Raises w skip cause span (.pattern rule b ctx₁) c) : Raises w skip cause span (.pattern rule (.alt a b) ctx) c
  | call {rule call id ctx c} (ht : call.target = some id) (hl : (rule.argumentsOf call ctx).length = call.arity)
      (h : Raises w skip cause span (.rule id (rule.argumentsOf call ctx)) c) :
      Raises w skip cause span (.pattern rule (.call call) ctx) c
  | rule {id rule args c} (hr : w.rules[id]? = some rule) (ha : args.length = rule.arity)
      (h : Raises w skip cause span (.pattern rule rule.definition (.enter rule.attributes args c.offset)) c) :
      Raises w skip cause span (.rule id args) c

/-! ## Runs that fail -/

/-- The run stops, with this error or because its fuel is used up. -/
def Fails {α : Type} (e : ParseError) (m : Engine V α) (s : State V) : Prop :=
  wp m (fun _ _ => False) (fun stop _ => stop = .exhausted ∨ stop = .error e) s

section
variable {w : World V} {skip : Option RuleId} {ctx ctx' : Context V} {c d : Cursor} {s t : State V} {job : Job V}
  {α : Type} {e : ParseError} {m : Engine V Match} {f : Match → Engine V α} {cause : Cause} {span : Span}

/-- What comes after a run that fails is not run. -/
theorem Fails.bind {β : Type} {m : Engine V β} (h : Fails e m s) (f : β → Engine V α) : Fails e (m >>= f) s :=
  (wp_bind _ _).2 (wp_mono h (fun _ _ h => h.elim) fun _ _ h => h)

theorem Steady.report (h : Steady s t) (cause : Cause) (span : Span) :
    t.scanner.report cause span = s.scanner.report cause span := by
  unfold Scanner.report
  rw [h.input]

/-- A run after a part that is known to hit. -/
theorem Follows.fails_hit (h : Follows w skip job c m s) (hs : At w skip ctx c s)
    (hd : Derives w skip job c (.hit ctx' d))
    (hf : ∀ t, Reaches w skip s ctx' d t → Fails e (f (.hit (d.offset - c.offset))) t) : Fails e (m >>= f) s := by
  refine (wp_bind _ _).2 (wp_mono h ?_ ?_)
  · rintro a t ⟨r, hr, hm⟩
    cases hr.unique hd
    obtain ⟨rfl, ht⟩ := hm
    rw [hs.offset]
    exact hf t ht
  · rintro stop t (rfl | hstop)
    · exact .inl rfl
    · cases hstop.unique hd

/-- A run after a part that is known to miss. -/
theorem Follows.fails_miss (h : Follows w skip job c m s) (hs : At w skip ctx c s)
    (hd : Derives w skip job c (.miss ctx')) (hf : ∀ t, Reaches w skip s ctx' c t → Fails e (f .miss) t) :
    Fails e (m >>= f) s := by
  refine (wp_bind _ _).2 (wp_mono h ?_ ?_)
  · rintro a t ⟨r, hr, hm⟩
    cases hr.unique hd
    obtain ⟨rfl, ht⟩ := hm
    exact hf t (hs.cursor ▸ ht)
  · rintro stop t (rfl | hstop)
    · exact .inl rfl
    · cases hstop.unique hd

theorem fails_runAction {rule : Rule V} {name : String} {g : Action V} {ctx'' : Context V} {n : Nat}
    (hg : rule.action? name = some g) (ht : Reaches w skip s ctx' d t)
    (hv : g ctx' (w.matched c d) = (.fail cause, ctx'')) :
    Fails (s.scanner.report cause (w.matched c d).span) (Engine.runAction rule name c n) t := by
  unfold Fails Engine.runAction
  rw [wp_bind, wp_get]
  dsimp only
  rw [ht.matchedSince, ht.context, hg]
  dsimp only
  rw [hv, wp_bind, Engine.wp_setContext]
  exact .inr (congrArg Stop.error (ht.report cause _))

/-! ## What raises fails -/

/-- The runs of a job fail from every state that stands at the place. -/
def AllFail (w : World V) (skip : Option RuleId) (cause : Cause) (span : Span) : Job V → Cursor → Prop
  | .pattern rule p ctx, c => ∀ fuel s, p.Linked w.rules rule → At w skip ctx c s →
      Fails (s.scanner.report cause span) (p.run w.rules fuel (Engine.invoke w.rules fuel) rule) s
  | .rule id args, c => ∀ fuel s (below : Stack V), At w skip s.context c s → s.stack = below.pushAll args →
      Fails (s.scanner.report cause span) (Engine.invoke w.rules fuel id) s
  | _, _ => False

theorem Raises.fails (hw : ∀ (id : RuleId) rule, w.rules[id]? = some rule → rule.definition.Linked w.rules rule)
    (hskip : w.CanSkip skip) (h : Raises w skip cause span job c) : AllFail w skip cause span job c := by
  induction h with
  | fail h hf hv hspan =>
    intro fuel s hp hs
    subst hspan
    unfold Pattern.run
    refine (wp_bind _ _).2 ?_
    rw [Engine.wp_here, hs.cursor]
    refine (follows_run (invokesAs hw fuel) fuel _ hp.2 hskip hs).fails_hit hs h fun t ht => ?_
    exact fails_runAction hf ht hv
  | act _ ih =>
    intro fuel s hp hs
    unfold Pattern.run
    exact (wp_bind _ _).2 ((ih fuel s hp.2 hs).bind _)
  | seq_first _ ih | alt_first _ ih =>
    intro fuel s hp hs
    unfold Pattern.run
    exact (wp_bind _ _).2 ((ih fuel s hp.1 hs).bind _)
  | alt_second ha _ ih =>
    intro fuel s hp hs
    unfold Pattern.run
    refine (wp_bind _ _).2 ?_
    rw [Engine.wp_here, hs.cursor]
    refine (follows_run (invokesAs hw fuel) fuel _ hp.1 hskip hs).fails_miss hs ha fun t ht => ?_
    have hback := ht.back hs
    refine (wp_bind _ _).2 ((Engine.wp_moveTo _).2 ?_)
    rw [← hback.report]
    exact ih fuel _ hp.2 hback.toAt
  | @call rule call id ctx c ht hl _ ih =>
    intro fuel s _ hs
    obtain rfl := hs.context
    have hpushed : At w skip s.context c { s with stack := s.stack.pushAll (rule.argumentsOf call s.context) } :=
      ⟨hs.cursor, hs.place, rfl, hs.skips, hs.file, hs.fileIndex⟩
    unfold Pattern.run Engine.performCall
    refine (wp_bind _ _).2 (wp_passArguments ht (fun _ => ?_) fun hne => absurd hl hne)
    exact (ih fuel _ s.stack hpushed rfl).bind _
  | @rule id rule args c hr ha _ ih =>
    intro fuel s below hs hstack
    cases fuel with
    | zero => exact .inl rfl
    | succ fuel =>
      unfold Engine.invoke
      rw [hr]
      dsimp only
      unfold Fails Engine.matchRule Engine.enter
      rw [wp_bind, wp_get, wp_bind, wp_bind, wp_get, hstack, ← ha, Stack.popN?_pushAll]
      dsimp only
      rw [wp_bind, Engine.wp_setStack, wp_bind, Engine.wp_setContext, Engine.wp_onScanner, wp_bind, Engine.wp_attempt,
        hs.offset]
      obtain ⟨trace, henter⟩ := s.scanner.enterRule_eq rule.qualifiedName
      have hin : At w skip (.enter rule.attributes args c.offset) c
          ⟨s.scanner.enterRule rule.qualifiedName, below, .enter rule.attributes args c.offset⟩ := by
        rw [henter]
        exact ⟨hs.cursor, hs.place, rfl, hs.skips, hs.file, hs.fileIndex⟩
      have hreport : (s.scanner.enterRule rule.qualifiedName).report cause span = s.scanner.report cause span := by
        rw [henter]
        rfl
      refine wp_mono (ih fuel _ (hw id rule hr) hin) (fun _ _ h => h.elim) fun stop t hstop => ?_
      rw [hreport] at hstop
      exact hstop

/-! ## Parses -/

/-- The run of a start rule that comes to an action which fails. -/
theorem Raises.runStart {d : Domain V} {g : Grammar} {start : RuleId} (hd : d.Linked) (hmem : g ∈ d.grammars)
    {args : List V} {source : String} {options : Options} (rule : Rule V) (stack : Stack V) (fuel : Nat)
    (hskip : Derives ⟨d.rules, options.file, options.fileIndex⟩ g.skip (.skip .empty) ⟨0, source.toList⟩ (.hit .empty c))
    (h : Raises ⟨d.rules, options.file, options.fileIndex⟩ g.skip cause span (.rule start args) c) :
    Fails (.located cause "parse" options.file source.toList span)
      (Engine.runStart (Engine.invoke d.rules fuel) start rule stack.size)
      (Domain.startState g source options (stack.pushAll args)) := by
  have hs := at_startState g d.rules source options (stack.pushAll args)
  have hcan : World.CanSkip ⟨d.rules, options.file, options.fileIndex⟩ g.skip := by
    intro id hid
    obtain ⟨callee, hcallee, hzero, -⟩ := hd.skip g hmem id hid
    exact ⟨callee, hcallee, hzero⟩
  unfold Engine.runStart Engine.matchStart
  refine Fails.bind ((wp_bind _ _).2 (wp_mono (continues_skip (invokesAs hd.rules fuel) hcan hs) ?_ ?_)) _
  · rintro - t ⟨ctx', c', h', ht⟩
    cases h'.unique hskip
    have hfails := h.fails hd.rules hcan fuel t stack (ht.context.symm ▸ ht.toAt) ht.stack
    rw [ht.report] at hfails
    exact hfails.bind _
  · rintro stop t (rfl | hstop)
    · exact .inl rfl
    · cases hstop.unique hskip

/-- A parse that comes to an action which fails answers with its error. -/
theorem parseIn_raises {d : Domain V} {g : Grammar} {start : RuleId} {rule : Rule V} (hd : d.Linked)
    (hg : Progress.grounded d.rules g.skip = true) (hmem : g ∈ d.grammars) (hstart : g.start = some start)
    (hrule : d.rules[start]? = some rule) {args : List V} (ha : args.length = rule.arity) {source : String}
    {options : Options} (session : Session V)
    (hskip : Derives ⟨d.rules, options.file, options.fileIndex⟩ g.skip (.skip .empty) ⟨0, source.toList⟩ (.hit .empty c))
    (h : Raises ⟨d.rules, options.file, options.fileIndex⟩ g.skip cause span (.rule start args) c) :
    (d.parseIn g source options args session).1 = .error (.error (.located cause "parse" options.file source.toList span)) := by
  have hends := Progress.parseIn_ends hd hg hmem source options args session
  have hrun := h.runStart hd hmem rule session.stack (d.fuelOf source) hskip
  rw [Domain.parseIn_eq hstart hrule source options ha] at hends ⊢
  rcases hout : outcome (Engine.runStart (Engine.invoke d.rules (d.fuelOf source)) start rule session.stack.size)
    (Domain.startState g source options (session.stack.pushAll args)) with ⟨stop | v, t⟩
  · rw [hout] at hends
    obtain rfl | rfl := wp_error hrun hout
    · exact absurd rfl hends
    · rfl
  · exact (wp_ok hrun hout).elim

end

end PegFront
