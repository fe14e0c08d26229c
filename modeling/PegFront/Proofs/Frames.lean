import PegFront.Proofs.Adequacy

/-!
# What runs leave alone

However a run ends, it has left alone what is scanned and how it is skipped, and the rules are nested as deep as
before; a run inside the skip rule has also left alone the record of failures and the trace (`Unaltered`). Hence an
application of the skip rule that ends has done nothing but to move the scanner (`outcome_skip`).
-/

namespace PegFront

variable {V α β : Type}

/-- The state with the scanner at another place. -/
def State.moveTo (s : State V) (c : Cursor) : State V := { s with scanner := s.scanner.moveTo c }

/-- From `s` to `t` nothing has changed that a run never changes. -/
structure Unaltered (s t : State V) : Prop extends Steady s t where
  ruleDepth : t.scanner.ruleDepth = s.scanner.ruleDepth
  record : s.scanner.skipping = true → t.scanner.farthest = s.scanner.farthest ∧
    t.scanner.expected = s.scanner.expected ∧ t.scanner.trace = s.scanner.trace

namespace Unaltered

variable {s t u : State V}

theorem rfl : Unaltered s s := ⟨.rfl, Eq.refl _, fun _ => ⟨Eq.refl _, Eq.refl _, Eq.refl _⟩⟩

theorem trans (h : Unaltered s t) (h' : Unaltered t u) : Unaltered s u := by
  refine ⟨h.toSteady.trans h'.toSteady, h'.ruleDepth.trans h.ruleDepth, fun hs => ?_⟩
  obtain ⟨hf, he, ht⟩ := h.record hs
  obtain ⟨hf', he', ht'⟩ := h'.record (h.skipping.trans hs)
  exact ⟨hf'.trans hf, he'.trans he, ht'.trans ht⟩

/-- Stack, context and place do not count. -/
theorem of_scanner {c : Cursor} (h : t.scanner = s.scanner.moveTo c) : Unaltered s t := by
  refine ⟨⟨?_, ?_, ?_, ?_⟩, ?_, fun _ => ⟨?_, ?_, ?_⟩⟩ <;> rw [h] <;> exact Eq.refl _

/-- In the skip rule a run moves the scanner and does nothing else to it. -/
theorem scanner_eq (h : Unaltered s t) (hs : s.scanner.skipping = true) :
    t.scanner = s.scanner.moveTo t.scanner.cursor := by
  obtain ⟨hfarthest, hexpected, htrace⟩ := h.record hs
  show t.scanner = ⟨s.scanner.input, t.scanner.cursor, s.scanner.skipRule, s.scanner.tokenDepth,
    s.scanner.skipping, s.scanner.ruleDepth, s.scanner.farthest, s.scanner.expected, s.scanner.trace⟩
  rw [← h.input, ← h.skipRule, ← h.tokenDepth, ← h.skipping, ← h.ruleDepth, ← hfarthest, ← hexpected, ← htrace]

/-- Leaving a rule undoes what entering it did. -/
theorem leaveRule {name : String} {stack : Stack V} {context : Context V}
    (h : Unaltered ⟨s.scanner.enterRule name, stack, context⟩ t) (start : Cursor) (matched : Bool) :
    Unaltered s { t with scanner := t.scanner.leaveRule name start matched } := by
  obtain ⟨trace, henter⟩ := s.scanner.enterRule_eq name
  obtain ⟨trace', hleave⟩ := t.scanner.leaveRule_eq name start matched
  have hquiet : s.scanner.skipping = true → trace = s.scanner.trace := by
    intro hs
    have := congrArg Scanner.trace henter
    simpa [Scanner.enterRule, Scanner.record, hs] using this.symm
  have hquiet' : t.scanner.skipping = true → trace' = t.scanner.trace := by
    intro ht
    have := congrArg Scanner.trace hleave
    simpa [Scanner.leaveRule, Scanner.record, ht] using this.symm
  rw [henter] at h
  rw [hleave]
  refine ⟨⟨h.input, h.skipRule, h.tokenDepth, h.skipping⟩, Nat.sub_eq_of_eq_add h.ruleDepth, fun hs => ?_⟩
  obtain ⟨hfarthest, hexpected, htrace⟩ := h.record hs
  refine ⟨hfarthest, hexpected, ?_⟩
  exact (hquiet' (h.skipping.trans hs)).trans (htrace.trans (hquiet hs))

end Unaltered

/-- However the computation ends, it leaves alone what a run never changes. -/
def Unaltering (m : Engine V α) : Prop := ∀ s, wp m (fun _ => Unaltered s) (fun _ => Unaltered s) s

namespace Unaltering

theorem pure (a : α) : Unaltering (pure a : Engine V α) := fun _ => .rfl

theorem throw (e : Stop) : Unaltering (throw e : Engine V α) := fun _ => .rfl

theorem get : Unaltering (get : Engine V (State V)) := fun _ => .rfl

theorem here : Unaltering (Engine.here : Engine V Cursor) := fun _ => .rfl

theorem hitFrom (start : Cursor) : Unaltering (Engine.hitFrom start : Engine V Match) := fun _ => .rfl

theorem moveTo (c : Cursor) : Unaltering (Engine.moveTo c : Engine V Unit) := fun _ => .of_scanner (c := c) rfl

theorem setStack (stack : Stack V) : Unaltering (Engine.setStack stack) :=
  fun s => .of_scanner (c := s.scanner.cursor) rfl

theorem setContext (context : Context V) : Unaltering (Engine.setContext context) :=
  fun s => .of_scanner (c := s.scanner.cursor) rfl

theorem raise (cause : Cause) (span : Span) : Unaltering (Engine.raise cause span : Engine V α) := fun _ => .rfl

theorem raiseInternal (cause : Cause) (span : Span) : Unaltering (Engine.raiseInternal cause span : Engine V α) :=
  fun _ => .rfl

theorem bind {m : Engine V α} {f : α → Engine V β} (h : Unaltering m) (hf : ∀ a, Unaltering (f a)) :
    Unaltering (m >>= f) := by
  intro s
  refine (wp_bind m f).2 (wp_mono (h s) (fun a t ht => ?_) fun _ _ ht => ht)
  exact wp_mono (hf a t) (fun _ _ hu => ht.trans hu) fun _ _ hu => ht.trans hu

/-- Nothing is noted in the skip rule. -/
theorem missed (what : String) : Unaltering (Engine.missed what : Engine V Match) := by
  intro s
  obtain ⟨farthest, expected, hn⟩ := s.scanner.note_eq what
  show Unaltered s { s with scanner := s.scanner.note what }
  refine ⟨⟨?_, ?_, ?_, ?_⟩, ?_, fun hs => ?_⟩
  · rw [hn]
  · rw [hn]
  · rw [hn]
  · rw [hn]
  · rw [hn]
  · have hquiet : s.scanner.note what = s.scanner := by simp [Scanner.note, hs]
    rw [hquiet]
    exact ⟨rfl, rfl, rfl⟩

theorem bracket {before after : Scanner → Scanner} {m : Engine V α} (h : Unaltering m) {s : State V}
    (hba : ∀ t, Unaltered { s with scanner := before s.scanner } t → Unaltered s { t with scanner := after t.scanner }) :
    wp (Engine.bracket before after m) (fun _ => Unaltered s) (fun _ => Unaltered s) s :=
  (Engine.wp_bracket _ _ _).2 (wp_mono (h _) (fun _ t ht => hba t ht) fun _ t ht => hba t ht)

/-! ## Terminals, skipping and repetition -/

theorem matchOne (kind : CharKind) : Unaltering (Engine.matchOne kind : Engine V Match) := by
  refine bind here fun c => ?_
  split
  · split
    · exact bind (moveTo _) fun _ => pure _
    · exact missed _
  · exact missed _

theorem matchText (literal : String) : Unaltering (Engine.matchText literal : Engine V Match) := by
  refine bind here fun c => ?_
  split
  · exact bind (moveTo _) fun _ => pure _
  · exact missed _

theorem matchKeyword (word : String) : Unaltering (Engine.matchKeyword word : Engine V Match) := by
  refine bind here fun c => ?_
  split
  · split
    · exact missed _
    · exact bind (moveTo _) fun _ => pure _
  · exact missed _

section
variable {invoke : RuleId → Engine V Match} (hk : ∀ id, Unaltering (invoke id))
include hk

/-- Whatever happens in the skip rule, the scanner is only moved. -/
theorem wp_skip (s : State V) : wp (Engine.skip invoke) (fun _ t => ∃ c, t.scanner = s.scanner.moveTo c)
    (fun _ t => ∃ c, t.scanner = s.scanner.moveTo c) s := by
  have hstays : ∃ c, s.scanner = s.scanner.moveTo c := ⟨s.scanner.cursor, rfl⟩
  unfold Engine.skip
  rw [wp_bind, wp_get]
  cases s.scanner.skipRule with
  | none => exact hstays
  | some id =>
    dsimp only
    split
    · next hcan =>
      have hs : s.scanner.skipping = false := by
        simp only [Scanner.canSkip, Bool.and_eq_true, Bool.not_eq_true'] at hcan
        exact hcan.1.2
      have hback : ∀ {t}, Unaltered { s with scanner := s.scanner.setSkipping true } t →
          t.scanner.setSkipping false = s.scanner.moveTo t.scanner.cursor := by
        intro t ht
        rw [ht.scanner_eq rfl]
        show (⟨_, _, _, _, false, _, _, _, _⟩ : Scanner) = ⟨_, _, _, _, s.scanner.skipping, _, _, _, _⟩
        rw [hs]
        rfl
      rw [wp_bind, Engine.wp_attempt, Engine.wp_bracket]
      refine wp_mono (hk id _) (fun m t ht => ?_) fun e t ht => ⟨_, hback ht⟩
      cases m with
      | miss => exact ⟨s.scanner.cursor, congrArg (·.moveTo s.scanner.cursor) (hback ht)⟩
      | hit n => exact ⟨_, hback ht⟩
    · exact hstays

theorem skip : Unaltering (Engine.skip invoke) :=
  fun s => wp_mono (wp_skip hk s) (fun _ _ ht => .of_scanner ht.choose_spec) fun _ _ ht => .of_scanner ht.choose_spec

omit hk

theorem repeatBody {skip : Engine V Unit} {body : Engine V Match} (hs : Unaltering skip) (hb : Unaltering body)
    (fuel : Nat) (first : Bool) : Unaltering (Engine.repeatBody skip body fuel first) := by
  induction fuel generalizing first with
  | zero => exact throw _
  | succ fuel ih =>
    refine bind get fun s => ?_
    split
    · exact pure ()
    cases first with
    | true =>
      refine bind hb fun m => ?_
      cases m with
      | miss => exact moveTo _
      | hit n => exact ih false
    | false =>
      refine bind hs fun _ => bind hb fun m => ?_
      cases m with
      | miss => exact moveTo _
      | hit n => exact ih false

theorem repeatItems {skip : Engine V Unit} {separator item : Engine V Match} (hs : Unaltering skip)
    (hp : Unaltering separator) (hi : Unaltering item) (fuel : Nat) :
    Unaltering (Engine.repeatItems skip separator item fuel) := by
  induction fuel with
  | zero => exact throw _
  | succ fuel ih =>
    refine bind here fun save => bind hs fun _ => bind hp fun m => ?_
    cases m with
    | miss => exact moveTo _
    | hit n =>
      refine bind hs fun _ => bind hi fun m => ?_
      cases m with
      | miss => exact moveTo _
      | hit n => exact ih

/-! ## Actions, calls and patterns -/

theorem runAction (rule : Rule V) (action : String) (start : Cursor) (length : Nat) :
    Unaltering (Engine.runAction rule action start length) := by
  refine bind get fun s => ?_
  dsimp only
  split
  · exact raiseInternal _ _
  · next f _ =>
    rcases f s.context (Engine.matchedSince start s.scanner) with ⟨verdict, context⟩
    refine bind (setContext _) fun _ => ?_
    cases verdict with
    | pass => exact pure _
    | reject => exact bind (moveTo _) fun _ => pure _
    | fail cause => exact raise _ _

theorem passArguments (rule : Rule V) (call : Call) : Unaltering (Engine.passArguments rule call) := by
  refine bind get fun s => ?_
  split
  · exact raiseInternal _ _
  · dsimp only
    split
    · exact raiseInternal _ _
    · exact bind (setStack _) fun _ => pure _

theorem takeUpValue (rule : Rule V) (call : Call) (callee : Rule V) :
    Unaltering (Engine.takeUpValue rule call callee) := by
  unfold Engine.takeUpValue
  split
  · refine bind get fun s => ?_
    split
    · exact raiseInternal _ _
    · exact bind (setStack _) fun _ => setContext _
  · exact pure _

theorem endCall (rules : Array (Rule V)) (rule : Rule V) (call : Call) (target : RuleId) (m : Match) :
    Unaltering (Engine.endCall rules rule call target m) := by
  unfold Engine.endCall
  split
  · exact bind (takeUpValue rule call _) fun _ => pure _
  · exact pure _

include hk

theorem performCall (rules : Array (Rule V)) (rule : Rule V) (call : Call) :
    Unaltering (Engine.performCall rules invoke rule call) :=
  bind (passArguments rule call) fun target => bind (hk target) fun m => endCall rules rule call target m

theorem run (rules : Array (Rule V)) (fuel : Nat) (rule : Rule V) (p : Pattern) :
    Unaltering (p.run rules fuel invoke rule) := by
  have hskip := skip hk
  induction p with
  | empty => exact pure _
  | one kind => exact matchOne kind
  | text literal => exact matchText literal
  | keyword word => exact matchKeyword word
  | keywords selector words ih =>
    refine bind here fun start => bind ih fun m => bind here fun stop => ?_
    split
    · exact pure _
    · exact bind (moveTo _) fun _ => missed _
  | seq first second ih₁ ih₂ =>
    refine bind here fun start => bind ih₁ fun m => ?_
    cases m with
    | miss => exact pure _
    | hit n =>
      refine bind here fun middle => bind hskip fun _ => bind ih₂ fun m => ?_
      rcases m with (_ | n) | _
      · exact bind (moveTo _) fun _ => hitFrom _
      · exact hitFrom _
      · exact bind (moveTo _) fun _ => pure _
  | alt first second ih₁ ih₂ =>
    refine bind here fun start => bind ih₁ fun m => ?_
    cases m with
    | hit n => exact pure _
    | miss => exact bind (moveTo _) fun _ => ih₂
  | diff subject excluded ih₁ ih₂ =>
    refine bind here fun start => bind ih₁ fun m => ?_
    cases m with
    | miss => exact bind (moveTo _) fun _ => pure _
    | hit n =>
      refine bind here fun after => bind (moveTo _) fun _ => bind ih₂ fun m => ?_
      split <;> exact bind (moveTo _) fun _ => pure _
  | list item separator ih₁ ih₂ =>
    refine bind here fun start => bind ih₁ fun m => ?_
    cases m with
    | miss => exact pure _
    | hit n => exact bind (repeatItems hskip ih₂ ih₁ fuel) fun _ => hitFrom _
  | opt subject ih =>
    refine bind here fun start => bind ih fun m => ?_
    cases m with
    | hit n => exact pure _
    | miss => exact bind (moveTo _) fun _ => pure _
  | many subject ih => exact bind here fun start => bind (repeatBody hskip ih fuel true) fun _ => hitFrom _
  | many1 subject ih =>
    refine bind here fun start => bind ih fun m => ?_
    cases m with
    | miss => exact pure _
    | hit n => exact bind (repeatBody hskip ih fuel false) fun _ => hitFrom _
  | expect subject ih =>
    refine bind ih fun m => ?_
    cases m with
    | hit n => exact pure _
    | miss => exact bind get fun s => throw _
  | token subject ih =>
    intro s
    refine bracket ih fun t ht => ⟨⟨ht.input, ht.skipRule, ?_, ht.skipping⟩, ht.ruleDepth, ht.record⟩
    have hdepth : t.scanner.tokenDepth = s.scanner.tokenDepth + 1 := ht.tokenDepth
    exact Nat.sub_eq_of_eq_add hdepth
  | lookahead subject ih | notAhead subject ih =>
    exact bind here fun start => bind ih fun m => bind (moveTo _) fun _ => pure _
  | act action subject ih =>
    refine bind here fun start => bind ih fun m => ?_
    cases m with
    | miss => exact pure _
    | hit n => exact runAction rule action start n
  | call c => exact performCall hk rules rule c

end

/-! ## Rules -/

theorem pushValue (rule : Rule V) (start : Cursor) : Unaltering (Engine.pushValue rule start) := by
  unfold Engine.pushValue
  split
  · refine bind get fun s => ?_
    split
    · exact setStack _
    · exact raiseInternal _ _
  · exact pure _

theorem leave (rule : Rule V) {s t : State V} {stack : Stack V} {context : Context V}
    (h : Unaltered ⟨s.scanner.enterRule rule.qualifiedName, stack, context⟩ t) (result : Except Stop Match) :
    wp (Engine.leave rule s result) (fun _ => Unaltered s) (fun _ => Unaltered s) t := by
  unfold Engine.leave
  rw [wp_bind, Engine.wp_onScanner]
  have hrest : ∀ {u : State V} {m : Engine V Match}, Unaltering m → Unaltered s u →
      wp m (fun _ => Unaltered s) (fun _ => Unaltered s) u :=
    fun hm hu => wp_mono (hm _) (fun _ _ hv => hu.trans hv) fun _ _ hv => hu.trans hv
  rcases result with e | _ | _
  · exact hrest (throw e) (h.leaveRule _ _)
  · exact hrest (bind (pushValue rule _) fun _ => bind (setContext _) fun _ => pure _) (h.leaveRule _ _)
  · exact hrest (bind (setContext _) fun _ => pure _) (h.leaveRule _ _)

theorem matchRule (rule : Rule V) {body : Engine V Match} (h : Unaltering body) :
    Unaltering (Engine.matchRule rule body) := by
  intro s
  unfold Engine.matchRule Engine.enter
  simp only [wp_bind, wp_get]
  split
  · exact .rfl
  · simp only [wp_bind, Engine.wp_setStack, Engine.wp_setContext, Engine.wp_onScanner, Engine.wp_attempt]
    exact wp_mono (h _) (fun _ _ ht => leave rule ht _) fun _ _ ht => leave rule ht _

theorem invoke (rules : Array (Rule V)) (fuel : Nat) (id : RuleId) : Unaltering (Engine.invoke rules fuel id) := by
  induction fuel generalizing id with
  | zero => exact throw _
  | succ fuel ih =>
    unfold Engine.invoke
    cases rules[id]? with
    | none => exact throw _
    | some rule => exact matchRule rule (run ih rules fuel rule _)

end Unaltering

section
variable {w : World V} {skip : Option RuleId} {ctx : Context V} {c : Cursor} {s t : State V}

/-- An application of the skip rule that ends moves the scanner to where a derivation says, and does nothing
else. -/
theorem outcome_skip (hw : ∀ (id : RuleId) rule, w.rules[id]? = some rule → rule.definition.Linked w.rules rule)
    (hskip : w.CanSkip skip) (hs : At w skip ctx c s) {fuel : Nat}
    (h : outcome (Engine.skip (Engine.invoke w.rules fuel)) s = (.ok (), t)) :
    ∃ d, Derives w skip (.skip ctx) c (.hit ctx d) ∧ d.In s.scanner.input ∧
      t = s.moveTo d := by
  obtain ⟨ctx', d, hd, ht⟩ := wp_ok (continues_skip (invokesAs hw fuel) hskip hs) h
  obtain ⟨e, he⟩ := wp_ok (Unaltering.wp_skip (Unaltering.invoke w.rules fuel) s) h
  obtain rfl := skip_context hd
  have hcursor : e = d := (congrArg Scanner.cursor he).symm.trans ht.cursor
  subst hcursor
  refine ⟨e, hd, ht.input ▸ ht.place, ?_⟩
  obtain ⟨scanner, stack, context⟩ := t
  obtain rfl : scanner = _ := he
  obtain rfl : stack = _ := ht.stack
  obtain rfl : context = _ := ht.context.trans hs.context.symm
  rfl

end

end PegFront
