import PegFront.Proofs.Relabelling

/-!
# Traces

With a trace, every rule that is entered outside of the skip rule leaves two events: one on entry and one at
its end, whichever way it ends. What is recorded in between lies one level deeper and not before the place of
entry. So the events of a run form a forest (`Trace.Forest`), and those of a parse a single tree or
nothing at all. Tracing changes nothing else.
-/

namespace PegFront

variable {V α β : Type}

/-! ## Forests of events -/

namespace TraceEvent

/-- An entry into a rule on a level of nesting, at the offset or after it. -/
structure Opens (depth offset : Nat) (e : TraceEvent) : Prop where
  kind : e.kind = .enter
  depth : e.depth = depth
  offset : offset ≤ e.span.start
  empty : e.span.stop = e.span.start

/-- The end of the rule that was entered with `e`. -/
structure Closes (e c : TraceEvent) : Prop where
  rule : c.rule = e.rule
  depth : c.depth = e.depth
  file : c.span.file = e.span.file
  start : c.span.start = e.span.start
  ends : c.kind = .success ∧ c.span.start ≤ c.span.stop ∨ c.kind = .failure ∧ c.span = e.span

theorem Closes.kind_ne {e c : TraceEvent} (h : e.Closes c) : c.kind ≠ .enter := by
  rcases h.ends with ⟨h, _⟩ | ⟨h, _⟩ <;> rw [h] <;> nofun

end TraceEvent

namespace Trace

/-- Trees of events side by side: each begins with the entry into a rule, goes on with the trees of the rules
called by it, one level deeper and not before it, and closes with the end of the rule. -/
inductive Forest : Nat → Nat → List TraceEvent → Prop
  | nil {depth offset} : Forest depth offset []
  | tree {depth offset e inner c rest} (ho : e.Opens depth offset) (hi : Forest (depth + 1) e.span.start inner)
      (hc : e.Closes c) (hr : Forest depth offset rest) : Forest depth offset (e :: (inner ++ c :: rest))

/-- The events of one call of a rule. -/
def Tree (rule : String) (depth offset : Nat) (events : List TraceEvent) : Prop :=
  ∃ e inner c, events = e :: (inner ++ [c]) ∧ e.rule = rule ∧ e.Opens depth offset ∧
    Forest (depth + 1) e.span.start inner ∧ e.Closes c

namespace Forest

variable {depth offset : Nat} {events xs ys : List TraceEvent}

theorem append (hx : Forest depth offset xs) (hy : Forest depth offset ys) : Forest depth offset (xs ++ ys) := by
  induction hx with
  | nil => exact hy
  | tree ho hi hc _ _ ih =>
    have := tree ho hi hc (ih hy)
    simpa using this

theorem mono (h : Forest depth offset events) {offset' : Nat} (hle : offset' ≤ offset) :
    Forest depth offset' events := by
  induction h with
  | nil => exact nil
  | tree ho hi hc _ _ ih => exact tree ⟨ho.kind, ho.depth, Nat.le_trans hle ho.offset, ho.empty⟩ hi hc (ih hle)

theorem of_tree {rule : String} (h : Tree rule depth offset events) : Forest depth offset events := by
  obtain ⟨e, inner, c, rfl, _, ho, hi, hc⟩ := h
  exact tree ho hi hc nil

/-- No event is above the level of its forest or before its offset. -/
theorem of_mem (h : Forest depth offset events) {x : TraceEvent} (hx : x ∈ events) :
    depth ≤ x.depth ∧ offset ≤ x.span.start := by
  induction h with
  | nil => nomatch hx
  | tree ho _ hc _ ihi ihr =>
    rcases List.mem_cons.1 hx with rfl | hx
    · exact ⟨Nat.le_of_eq ho.depth.symm, ho.offset⟩
    rcases List.mem_append.1 hx with hx | hx
    · have := ihi hx
      exact ⟨by omega, Nat.le_trans ho.offset this.2⟩
    rcases List.mem_cons.1 hx with rfl | hx
    · exact ⟨Nat.le_of_eq (hc.depth.trans ho.depth).symm, hc.start ▸ ho.offset⟩
    · exact ihr hx

/-- Every entry is closed, with a forest in between. -/
theorem closed (h : Forest depth offset events) {before after : List TraceEvent} {e : TraceEvent}
    (hs : events = before ++ e :: after) (he : e.kind = .enter) :
    ∃ inner c rest, after = inner ++ c :: rest ∧ e.Closes c ∧ Forest (e.depth + 1) e.span.start inner := by
  induction h generalizing before after with
  | nil => simp at hs
  | @tree _ _ e₀ inner₀ c₀ rest₀ ho hi hc _ ihi ihr =>
    have hne : c₀ ≠ e := fun h => hc.kind_ne (h ▸ he)
    rcases before with _ | ⟨x, before⟩
    · -- it is the entry of this tree
      simp only [List.nil_append, List.cons.injEq] at hs
      obtain ⟨rfl, rfl⟩ := hs
      exact ⟨inner₀, c₀, rest₀, rfl, hc, ho.depth.symm ▸ hi⟩
    simp only [List.cons_append, List.cons.injEq] at hs
    rcases List.append_eq_append_iff.1 hs.2 with ⟨more, _, hmore⟩ | ⟨more, hinner, hmore⟩
    · -- it comes after this tree
      rcases more with _ | ⟨y, more⟩
      · exact absurd (List.cons.inj hmore).1 hne
      · exact ihr (List.cons.inj hmore).2
    · -- it lies inside of this tree
      rcases more with _ | ⟨y, more⟩
      · exact absurd (List.cons.inj hmore).1.symm hne
      · obtain ⟨rfl, rfl⟩ := List.cons.inj hmore
        obtain ⟨inner, c, rest, rfl, hclose, hforest⟩ := ihi hinner
        exact ⟨inner, c, rest ++ c₀ :: rest₀, by simp, hclose, hforest⟩

end Forest

end Trace

namespace TraceEvent

/-- The events `inner` stand between the entry `e` and its end `c`. -/
structure Encloses (e : TraceEvent) (inner : List TraceEvent) (c : TraceEvent) : Prop where
  closes : e.Closes c
  inside : ∀ x ∈ inner, e.depth < x.depth ∧ e.span.start ≤ x.span.start
  children : Trace.Forest (e.depth + 1) e.span.start inner

/-- An entry is closed by one event only, since the end of a rule is not inside of it. -/
theorem Encloses.unique {e c c' : TraceEvent} {inner inner' rest rest' : List TraceEvent} (h : e.Encloses inner c)
    (h' : e.Encloses inner' c') (hs : inner ++ c :: rest = inner' ++ c' :: rest') :
    inner = inner' ∧ c = c' ∧ rest = rest' := by
  have hc : c ∉ inner' := fun hm => absurd (h'.inside c hm).1 (by rw [h.closes.depth]; exact Nat.lt_irrefl _)
  have hc' : c' ∉ inner := fun hm => absurd (h.inside c' hm).1 (by rw [h'.closes.depth]; exact Nat.lt_irrefl _)
  rcases List.append_eq_append_iff.1 hs with ⟨more, hinner, hmore⟩ | ⟨more, hinner, hmore⟩
  · rcases more with _ | ⟨y, more⟩
    · exact ⟨by simp [hinner], (List.cons.inj hmore).1, (List.cons.inj hmore).2⟩
    · exact absurd (by simp [hinner, (List.cons.inj hmore).1]) hc
  · rcases more with _ | ⟨y, more⟩
    · exact ⟨by simp [hinner], (List.cons.inj hmore).1.symm, (List.cons.inj hmore).2.symm⟩
    · exact absurd (by simp [hinner, (List.cons.inj hmore).1]) hc'

end TraceEvent

/-- The events of a parse: nothing, or the tree of the start rule, in which every entry is closed once. -/
structure Trace.Bracketed (rule : String) (events : List TraceEvent) : Prop where
  root : events = [] ∨ Tree rule 0 0 events
  closed : ∀ before e after, events = before ++ e :: after → e.kind = .enter →
    ∃! split : List TraceEvent × TraceEvent × List TraceEvent,
      after = split.1 ++ split.2.1 :: split.2.2 ∧ e.Encloses split.1 split.2.1

theorem Trace.Bracketed.of_root {rule : String} {events : List TraceEvent} (h : events = [] ∨ Tree rule 0 0 events) :
    Bracketed rule events := by
  refine ⟨h, fun before e after hs he => ?_⟩
  have hforest : Forest 0 0 events := by
    rcases h with rfl | h
    · exact .nil
    · exact .of_tree h
  obtain ⟨inner, c, rest, rfl, hc, hinner⟩ := hforest.closed hs he
  have henc : e.Encloses inner c := ⟨hc, fun x hx => hinner.of_mem hx, hinner⟩
  refine ⟨(inner, c, rest), ⟨rfl, henc⟩, fun ⟨inner', c', rest'⟩ ⟨hs', henc'⟩ => ?_⟩
  obtain ⟨rfl, rfl, rfl⟩ := henc.unique henc' hs'
  rfl

/-! ## Scanners that record -/

def Trace.extend (t : Trace) (events : List TraceEvent) : Trace := ⟨t.events ++ events.toArray⟩

namespace Scanner

/-- The second scanner is on the same level as the first one and has recorded some events more. -/
structure Adds (s t : Scanner) (events : List TraceEvent) : Prop where
  input : t.input = s.input
  depth : t.ruleDepth = s.ruleDepth
  skipping : t.skipping = s.skipping
  trace : t.trace = s.trace.map (·.extend events)

/-- A forest of events has been added, but nothing while something is being skipped. -/
def Grown (s t : Scanner) : Prop :=
  ∃ events, s.Adds t events ∧ Trace.Forest s.ruleDepth s.offset events ∧ (s.skipping = true → events = [])

/-- The same, with the scanner not before the place where it was. -/
def Within (s t : Scanner) : Prop := s.Grown t ∧ s.offset ≤ t.offset

/-- A call of a rule has been recorded, or nothing. -/
def Recorded (rule : String) (s t : Scanner) : Prop :=
  ∃ events, s.Adds t events ∧ (events = [] ∨ s.skipping = false ∧ Trace.Tree rule s.ruleDepth s.offset events)

variable {s t u : Scanner} {xs ys : List TraceEvent} {rule : String}

theorem Adds.nothing (hi : t.input = s.input) (hd : t.ruleDepth = s.ruleDepth) (hs : t.skipping = s.skipping)
    (ht : t.trace = s.trace) : s.Adds t [] := by
  refine ⟨hi, hd, hs, ?_⟩
  rw [ht]
  cases s.trace with
  | none => rfl
  | some t => simp [Trace.extend]

theorem Adds.trans (h : s.Adds t xs) (h' : t.Adds u ys) : s.Adds u (xs ++ ys) := by
  refine ⟨h'.input.trans h.input, h'.depth.trans h.depth, h'.skipping.trans h.skipping, ?_⟩
  rw [h'.trace, h.trace]
  cases s.trace with
  | none => rfl
  | some t => simp [Trace.extend]

theorem Adds.trace_eq (h : s.Adds t []) : t.trace = s.trace := by
  rw [h.trace]
  cases s.trace with
  | none => rfl
  | some t => simp [Trace.extend]

theorem Adds.grown (h : s.Adds t []) : s.Grown t := ⟨[], h, .nil, fun _ => rfl⟩

theorem Recorded.grown (h : Recorded rule s t) : s.Grown t := by
  obtain ⟨events, hadds, rfl | ⟨hs, htree⟩⟩ := h
  · exact hadds.grown
  · exact ⟨events, hadds, .of_tree htree, fun h => by rw [hs] at h; nomatch h⟩

theorem Recorded.after (h : Recorded rule s t) (h' : t.Adds u []) : Recorded rule s u := by
  obtain ⟨events, hadds, hevents⟩ := h
  exact ⟨events, by simpa using hadds.trans h', hevents⟩

theorem Recorded.before (h : Recorded rule t u) (h' : s.Adds t []) (ho : s.offset ≤ t.offset) : Recorded rule s u := by
  obtain ⟨events, hadds, hevents⟩ := h
  refine ⟨events, h'.trans hadds, hevents.imp_right fun ⟨hs, e, inner, c, he, hrule, hopen, hrest⟩ => ?_⟩
  rw [h'.depth] at hopen hrest
  exact ⟨h'.skipping.symm.trans hs, e, inner, c, he, hrule,
    ⟨hopen.kind, hopen.depth, Nat.le_trans ho hopen.offset, hopen.empty⟩, hrest⟩

theorem Within.rfl : s.Within s := ⟨(Adds.nothing (Eq.refl _) (Eq.refl _) (Eq.refl _) (Eq.refl _)).grown, Nat.le_refl _⟩

theorem Within.grown (h : s.Within t) (h' : t.Grown u) : s.Grown u := by
  obtain ⟨⟨xs, hx, hfx, hsx⟩, ho⟩ := h
  obtain ⟨ys, hy, hfy, hsy⟩ := h'
  rw [hx.depth] at hfy
  rw [hx.skipping] at hsy
  exact ⟨xs ++ ys, hx.trans hy, hfx.append (hfy.mono ho), fun h => by rw [hsx h, hsy h]; rfl⟩

theorem Within.trans (h : s.Within t) (h' : t.Within u) : s.Within u := ⟨h.grown h'.1, Nat.le_trans h.2 h'.2⟩

theorem Within.moveTo (h : s.Within t) {c : Cursor} (hc : s.offset ≤ c.offset) : s.Within (t.moveTo c) :=
  ⟨h.grown (Adds.nothing (s := t) (t := t.moveTo c) (Eq.refl _) (Eq.refl _) (Eq.refl _) (Eq.refl _)).grown, hc⟩

/-- What a scanner does without recording. -/
theorem Within.adds (h : s.Within t) (h' : t.Adds u []) (ho : t.offset ≤ u.offset) : s.Within u := h.trans ⟨h'.grown, ho⟩

theorem adds_note (s : Scanner) (what : String) : s.Adds (s.note what) [] ∧ (s.note what).offset = s.offset := by
  obtain ⟨_, _, h⟩ := s.note_eq what
  rw [h]
  exact ⟨.nothing rfl rfl rfl rfl, rfl⟩

theorem record_of_skipping (hs : s.skipping = true) (kind : TraceKind) (rule : String) (span : Span)
    (text : List Char) : s.record kind rule span text = s := by
  rw [record, if_pos hs]

theorem record_of_not_skipping (hs : s.skipping = false) (kind : TraceKind) (rule : String) (span : Span)
    (text : List Char) : s.record kind rule span text =
      { s with trace := s.trace.map (·.extend [⟨kind, rule, s.ruleDepth, span, Trace.excerpt text⟩]) } := by
  rw [record, if_neg (by rw [hs]; nofun)]
  simp [Trace.record, Trace.extend]

/-- How a scanner ends a rule that it entered at `start`. -/
theorem leaveRule_adds (rule : String) (hs : t.skipping = false) (start : Cursor) (matched : Bool) : ∃ c : TraceEvent,
    { t with ruleDepth := t.ruleDepth - 1 }.Adds (t.leaveRule rule start matched) [c] ∧
      c.rule = rule ∧ c.depth = t.ruleDepth - 1 ∧
      (matched = true ∧ c.kind = .success ∧ c.span = t.spanFrom start.offset ∨
        matched = false ∧ c.kind = .failure ∧ c.span = .point t.input.fileIndex start.offset) := by
  unfold leaveRule
  dsimp only
  cases matched with
  | true =>
    rw [if_pos rfl, record_of_not_skipping (s := { t with ruleDepth := t.ruleDepth - 1 }) hs]
    exact ⟨_, ⟨rfl, rfl, rfl, rfl⟩, rfl, rfl, .inl ⟨rfl, rfl, rfl⟩⟩
  | false =>
    rw [if_neg nofun, record_of_not_skipping (s := { t with ruleDepth := t.ruleDepth - 1 }) hs]
    exact ⟨_, ⟨rfl, rfl, rfl, rfl⟩, rfl, rfl, .inr ⟨rfl, rfl, rfl⟩⟩

/-- The events of a rule from its entry on are a tree with the events of its body. -/
theorem Grown.leave (h : (s.enterRule rule).Grown t) (matched : Bool) (hm : matched = true → s.offset ≤ t.offset) :
    Recorded rule s (t.leaveRule rule s.cursor matched) := by
  obtain ⟨inner, hadds, hforest, hskip⟩ := h
  unfold enterRule at hadds hforest hskip
  cases hs : s.skipping with
  | true =>
    rw [record_of_skipping hs] at hadds hskip
    rw [hskip hs] at hadds
    have ht : t.skipping = true := hadds.skipping.trans hs
    refine ⟨[], ?_, .inl rfl⟩
    unfold leaveRule
    dsimp only
    rw [record_of_skipping (s := { t with ruleDepth := t.ruleDepth - 1 }) ht,
      record_of_skipping (s := { t with ruleDepth := t.ruleDepth - 1 }) ht, ite_self]
    exact .nothing hadds.input (by rw [hadds.depth]; rfl) hadds.skipping hadds.trace_eq
  | false =>
    rw [record_of_not_skipping hs] at hadds hforest
    obtain ⟨c, hc, hrule, hdepth, hends⟩ := leaveRule_adds rule (hadds.skipping.trans hs) s.cursor matched
    let e : TraceEvent := ⟨.enter, rule, s.ruleDepth, s.span, Trace.excerpt s.cursor.rest⟩
    let opened : Scanner := { s with trace := s.trace.map (·.extend [e]) }
    have hlevel : t.ruleDepth - 1 = s.ruleDepth := by rw [hadds.depth]; rfl
    have hopen : s.Adds opened [e] := ⟨rfl, rfl, rfl, rfl⟩
    have hbody : opened.Adds { t with ruleDepth := t.ruleDepth - 1 } inner :=
      ⟨hadds.input, hlevel, hadds.skipping, hadds.trace⟩
    refine ⟨e :: (inner ++ [c]), by simpa using (hopen.trans hbody).trans hc, .inr ⟨hs, e, inner, c, rfl, rfl,
      ⟨rfl, rfl, Nat.le_refl _, rfl⟩, hforest, ?_⟩⟩
    have hfile : t.input.fileIndex = s.input.fileIndex := congrArg Input.fileIndex hadds.input
    rcases hends with ⟨rfl, hkind, hspan⟩ | ⟨rfl, hkind, hspan⟩
    · exact ⟨hrule, hdepth.trans hlevel, by rw [hspan]; exact hfile, by rw [hspan]; rfl,
        .inl ⟨hkind, by rw [hspan]; exact hm rfl⟩⟩
    · rw [hfile] at hspan
      exact ⟨hrule, hdepth.trans hlevel, by rw [hspan]; rfl, by rw [hspan]; rfl, .inr ⟨hkind, hspan⟩⟩

end Scanner

theorem wp_final {σ : Type} {m : ExceptT Stop (StateM σ) α} {R : σ → Prop} {s : σ}
    (h : wp m (fun _ => R) (fun _ => R) s) : R (outcome m s).2 := by
  unfold wp at h
  rcases hm : outcome m s with ⟨e | a, t⟩ <;> rw [hm] at h <;> exact h

open Scanner
open Engine (wp_setStack wp_setContext wp_onScanner wp_attempt wp_bracket)

/-! ## Operations of the engine -/

/-- Whatever the computation does from a place after `s₀` on, it records forests only and ends after `s₀`. -/
def Traced (s₀ : Scanner) (m : Engine V α) : Prop :=
  ∀ s : State V, s₀.Within s.scanner → wp m (fun _ t => s₀.Within t.scanner) (fun _ t => s₀.Grown t.scanner) s

/-- The computation records nothing and does not go back. -/
def Silent (m : Engine V α) : Prop :=
  ∀ s : State V, wp m (fun _ t => s.scanner.Adds t.scanner [] ∧ s.scanner.offset ≤ t.scanner.offset)
    (fun _ t => s.scanner.Adds t.scanner []) s

theorem Cursor.offset_le_of_next? {c d : Cursor} {ch : Char} (h : c.next? = some (ch, d)) : c.offset ≤ d.offset := by
  unfold Cursor.next? at h
  split at h
  · nomatch h
  · simp only [Option.some.injEq, Prod.mk.injEq] at h
    rw [← h.2]
    exact Nat.le_add_right _ _

theorem Cursor.offset_le_of_after? {c d : Cursor} {literal : List Char} (h : c.after? literal = some d) :
    c.offset ≤ d.offset := by
  fun_induction Cursor.after? c literal with
  | case1 => cases h; exact Nat.le_refl _
  | case2 c ch literal rest hc ih => exact Nat.le_trans (Nat.le_add_right _ _) (ih h)
  | case3 => nomatch h
  | case4 => nomatch h

namespace Silent

theorem same {m : Engine V α} (h : ∀ s : State V, wp m (fun _ t => t.scanner = s.scanner)
    (fun _ t => t.scanner = s.scanner) s) : Silent m := by
  intro s
  refine wp_mono (h s) (fun _ t ht => ?_) fun _ t ht => ?_
  · rw [ht]
    exact ⟨.nothing rfl rfl rfl rfl, Nat.le_refl _⟩
  · rw [ht]
    exact .nothing rfl rfl rfl rfl

theorem passArguments (rule : Rule V) (call : Call) : Silent (Engine.passArguments rule call) := by
  refine same fun s => ?_
  unfold Engine.passArguments
  simp only [wp_bind, wp_get]
  cases call.target with
  | none => exact rfl
  | some target =>
    dsimp only
    split <;> exact rfl

theorem takeUpValue (rule : Rule V) (call : Call) (callee : Rule V) : Silent (Engine.takeUpValue rule call callee) := by
  refine same fun s => ?_
  unfold Engine.takeUpValue
  split
  · simp only [wp_bind, wp_get]
    split <;> exact rfl
  · exact rfl

theorem pushValue (rule : Rule V) (start : Cursor) : Silent (Engine.pushValue rule start) := by
  refine same fun s => ?_
  unfold Engine.pushValue
  split
  · simp only [wp_bind, wp_get]
    split <;> exact rfl
  · exact rfl

theorem endStart (rule : Rule V) (depth : Nat) (r : Match) : Silent (Engine.endStart rule depth r) := by
  refine same fun s => ?_
  unfold Engine.endStart
  simp only [wp_bind, wp_get]
  split
  · exact rfl
  split
  · exact rfl
  split
  · simp only [wp_bind, wp_setStack]
    split <;> exact rfl
  · exact rfl

end Silent

namespace Traced

variable {s₀ : Scanner} {m : Engine V α}

theorem pure (a : α) : Traced s₀ (pure a : Engine V α) := fun _ h => h

theorem throw (e : Stop) : Traced s₀ (throw e : Engine V α) := fun _ h => h.1

theorem bind {f : α → Engine V β} (h : Traced s₀ m) (hf : ∀ a, Traced s₀ (f a)) : Traced s₀ (m >>= f) :=
  fun s hs => wp_then (h s hs) fun a t ht => hf a t ht

theorem get {f : State V → Engine V α} (h : ∀ s, s₀.Within s.scanner → Traced s₀ (f s)) : Traced s₀ (get >>= f) :=
  fun s hs => h s hs s hs

theorem here {f : Cursor → Engine V α} (h : ∀ c : Cursor, s₀.offset ≤ c.offset → Traced s₀ (f c)) :
    Traced s₀ (Engine.here >>= f) :=
  fun s hs => h _ hs.2 s hs

theorem moveTo {c : Cursor} (h : s₀.offset ≤ c.offset) : Traced s₀ (Engine.moveTo c : Engine V Unit) :=
  fun _ hs => hs.moveTo h

theorem hitFrom (start : Cursor) : Traced s₀ (Engine.hitFrom start : Engine V Match) := fun _ h => h

theorem missed (what : String) : Traced s₀ (Engine.missed what : Engine V Match) := fun s hs =>
  hs.adds (s.scanner.adds_note what).1 (Nat.le_of_eq (s.scanner.adds_note what).2.symm)

theorem silent (h : Silent m) : Traced s₀ m := by
  intro s hs
  exact wp_mono (h s) (fun _ t ht => hs.adds ht.1 ht.2) fun _ t ht => hs.grown ht.grown

theorem matchOne (kind : CharKind) : Traced s₀ (Engine.matchOne kind : Engine V Match) := by
  refine here fun c hc => ?_
  rcases hn : c.next? with _ | ⟨ch, after⟩
  · exact missed _
  · dsimp only
    split
    · exact bind (moveTo (Nat.le_trans hc (Cursor.offset_le_of_next? hn))) fun _ => pure _
    · exact missed _

theorem matchText (literal : String) : Traced s₀ (Engine.matchText literal : Engine V Match) := by
  refine here fun c hc => ?_
  rcases hn : c.after? literal.toList with _ | after
  · exact missed _
  · exact bind (moveTo (Nat.le_trans hc (Cursor.offset_le_of_after? hn))) fun _ => pure _

theorem matchKeyword (word : String) : Traced s₀ (Engine.matchKeyword word : Engine V Match) := by
  refine here fun c hc => ?_
  rcases hn : c.after? word.toList with _ | after
  · exact missed _
  · dsimp only
    split
    · exact missed _
    · exact bind (moveTo (Nat.le_trans hc (Cursor.offset_le_of_after? hn))) fun _ => pure _

theorem repeatBody {skip : Engine V Unit} {body : Engine V Match} (hs : Traced s₀ skip) (hb : Traced s₀ body)
    (fuel : Nat) (first : Bool) : Traced s₀ (Engine.repeatBody skip body fuel first) := by
  induction fuel generalizing first with
  | zero => exact throw _
  | succ fuel ih =>
    refine get fun s hw => ?_
    split
    · exact pure ()
    cases first
    case' false => refine bind hs fun _ => ?_
    all_goals
      refine bind hb fun m => ?_
      cases m with
      | miss => exact moveTo hw.2
      | hit n => exact ih false

theorem repeatItems {skip : Engine V Unit} {separator item : Engine V Match} (hs : Traced s₀ skip)
    (hp : Traced s₀ separator) (hi : Traced s₀ item) (fuel : Nat) :
    Traced s₀ (Engine.repeatItems skip separator item fuel) := by
  induction fuel with
  | zero => exact throw _
  | succ fuel ih =>
    refine here fun save hsave => bind hs fun _ => bind hp fun m => ?_
    cases m with
    | miss => exact moveTo hsave
    | hit n =>
      refine bind hs fun _ => bind hi fun m => ?_
      cases m with
      | miss => exact moveTo hsave
      | hit n => exact ih

theorem runAction (rule : Rule V) (action : String) {start : Cursor} (hstart : s₀.offset ≤ start.offset)
    (length : Nat) : Traced s₀ (Engine.runAction rule action start length) := by
  refine get fun s hs => ?_
  dsimp only
  cases rule.action? action with
  | none => exact silent (.same fun _ => rfl)
  | some f =>
    dsimp only
    rcases f s.context (Engine.matchedSince start s.scanner) with ⟨verdict, context⟩
    refine bind (silent (.same fun _ => rfl)) fun _ => ?_
    cases verdict with
    | pass => exact pure _
    | reject => exact bind (moveTo hstart) fun _ => pure _
    | fail cause => exact silent (.same fun _ => rfl)

theorem bracket {before after : Scanner → Scanner} (hb : ∀ s : Scanner, s.Adds (before s) [] ∧ (before s).offset = s.offset)
    (ha : ∀ s : Scanner, s.Adds (after s) [] ∧ (after s).offset = s.offset) (h : Traced s₀ m) :
    Traced s₀ (Engine.bracket before after m) := by
  intro s hs
  rw [wp_bracket]
  have hbefore := hb s.scanner
  refine wp_mono (h _ (hs.adds hbefore.1 (Nat.le_of_eq hbefore.2.symm))) (fun _ t ht => ?_) fun _ t ht => ?_
  · exact ht.adds (ha t.scanner).1 (Nat.le_of_eq (ha t.scanner).2.symm)
  · obtain ⟨events, hadds, hforest, hskip⟩ := ht
    exact ⟨events ++ [], hadds.trans (ha t.scanner).1, by simpa using hforest, by simpa using hskip⟩

end Traced

/-! ## Rules -/

/-- An invocation records one call or nothing, and does not go back. -/
def Calls (rule : String) (m : Engine V Match) : Prop :=
  ∀ s : State V, wp m (fun _ t => Recorded rule s.scanner t.scanner ∧ s.scanner.offset ≤ t.scanner.offset)
    (fun _ t => Recorded rule s.scanner t.scanner) s

theorem Calls.traced {rule : String} {m : Engine V Match} (h : Calls rule m) (s₀ : Scanner) : Traced s₀ m := by
  intro s hs
  exact wp_mono (h s) (fun _ t ht => hs.trans ⟨ht.1.grown, ht.2⟩) fun _ t ht => hs.grown ht.grown

/-- The skip rule leaves no events, whatever happens in it. -/
theorem Silent.skip {invoke : RuleId → Engine V Match} (hk : ∀ id, ∃ rule, Calls rule (invoke id)) :
    Silent (Engine.skip invoke) := by
  intro s
  have hnothing : s.scanner.Adds s.scanner [] := .nothing rfl rfl rfl rfl
  unfold Engine.skip
  simp only [wp_bind, wp_get]
  cases s.scanner.skipRule with
  | none => exact ⟨hnothing, Nat.le_refl _⟩
  | some id =>
    dsimp only
    split
    · next hcan =>
      have hs : s.scanner.skipping = false := by
        simp only [canSkip, Bool.and_eq_true, Bool.not_eq_true'] at hcan
        exact hcan.1.2
      -- what the rule records while something is skipped is nothing
      have hquiet : ∀ {rule : String} {t : Scanner}, Recorded rule (s.scanner.setSkipping true) t →
          s.scanner.Adds (t.setSkipping false) [] := by
        rintro rule t ⟨events, hadds, rfl | ⟨hfalse, _⟩⟩
        · exact .nothing hadds.input hadds.depth hs.symm hadds.trace_eq
        · exact Bool.noConfusion hfalse
      obtain ⟨rule, hcall⟩ := hk id
      rw [wp_bind, wp_attempt, wp_bracket]
      refine wp_mono (hcall _) (fun m t ht => ?_) fun e t ht => hquiet ht
      cases m with
      | miss =>
        have hback := (hquiet ht.1).trans (u := (t.scanner.setSkipping false).moveTo s.scanner.cursor)
          (.nothing rfl rfl rfl rfl)
        exact ⟨hback, Nat.le_refl _⟩
      | hit n => exact ⟨hquiet ht.1, ht.2⟩
    · exact ⟨hnothing, Nat.le_refl _⟩

namespace Traced

variable {s₀ : Scanner} {invoke : RuleId → Engine V Match}

theorem endCall (rules : Array (Rule V)) (rule : Rule V) (call : Call) (id : RuleId) (r : Match) :
    Traced s₀ (Engine.endCall rules rule call id r) := by
  unfold Engine.endCall
  split
  · exact bind (silent (.takeUpValue rule call _)) fun _ => pure _
  · exact pure _

/-- A pattern records forests. -/
theorem run (hk : ∀ id, ∃ rule, Calls rule (invoke id)) (rules : Array (Rule V)) (fuel : Nat) (rule : Rule V)
    (p : Pattern) : Traced s₀ (p.run rules fuel invoke rule) := by
  have hskip : Traced s₀ (Engine.skip invoke) := silent (.skip hk)
  induction p with
  | empty => exact pure _
  | one kind => exact matchOne kind
  | text literal => exact matchText literal
  | keyword word => exact matchKeyword word
  | keywords selector words ih =>
    refine here fun start hstart => bind ih fun m => here fun stop _ => ?_
    split
    · exact pure m
    · exact bind (moveTo hstart) fun _ => missed _
  | seq first second ih₁ ih₂ =>
    refine here fun start hstart => bind ih₁ fun m => ?_
    cases m with
    | miss => exact pure _
    | hit n =>
      refine here fun middle hmiddle => bind hskip fun _ => bind ih₂ fun m => ?_
      match m with
      | .miss => exact bind (moveTo hstart) fun _ => pure _
      | .hit 0 => exact bind (moveTo hmiddle) fun _ => hitFrom start
      | .hit (n + 1) => exact hitFrom start
  | alt first second ih₁ ih₂ =>
    refine here fun start hstart => bind ih₁ fun m => ?_
    cases m with
    | hit n => exact pure _
    | miss => exact bind (moveTo hstart) fun _ => ih₂
  | diff subject excluded ih₁ ih₂ =>
    refine here fun start hstart => bind ih₁ fun m => ?_
    cases m with
    | miss => exact bind (moveTo hstart) fun _ => pure _
    | hit n =>
      refine here fun after hafter => bind (moveTo hstart) fun _ => bind ih₂ fun m => ?_
      split
      · exact bind (moveTo hstart) fun _ => pure _
      · exact bind (moveTo hafter) fun _ => pure _
  | list item separator ih₁ ih₂ =>
    refine here fun start _ => bind ih₁ fun m => ?_
    cases m with
    | miss => exact pure _
    | hit n => exact bind (repeatItems hskip ih₂ ih₁ fuel) fun _ => hitFrom start
  | opt subject ih =>
    refine here fun start hstart => bind ih fun m => ?_
    cases m with
    | hit n => exact pure _
    | miss => exact bind (moveTo hstart) fun _ => pure _
  | many subject ih => exact here fun start _ => bind (repeatBody hskip ih fuel true) fun _ => hitFrom start
  | many1 subject ih =>
    refine here fun start _ => bind ih fun m => ?_
    cases m with
    | miss => exact pure _
    | hit n => exact bind (repeatBody hskip ih fuel false) fun _ => hitFrom start
  | expect subject ih =>
    refine bind ih fun m => ?_
    cases m with
    | hit n => exact pure _
    | miss => exact get fun _ _ => throw _
  | token subject ih =>
    exact bracket (fun _ => ⟨.nothing rfl rfl rfl rfl, rfl⟩) (fun _ => ⟨.nothing rfl rfl rfl rfl, rfl⟩) ih
  | lookahead subject ih | notAhead subject ih =>
    exact here fun start hstart => bind ih fun m => bind (moveTo hstart) fun _ => pure _
  | act action subject ih =>
    refine here fun start hstart => bind ih fun m => ?_
    cases m with
    | miss => exact pure _
    | hit n => exact runAction rule action hstart n
  | call c =>
    refine bind (silent (.passArguments rule c)) fun id => bind ?_ fun m => endCall rules rule c id m
    obtain ⟨_, hcall⟩ := hk id
    exact hcall.traced s₀

end Traced

section
variable (rule : Rule V)

theorem Calls.throw (name : String) (e : Stop) : Calls name (throw e : Engine V Match) :=
  fun _ => ⟨[], .nothing rfl rfl rfl rfl, .inl rfl⟩

/-- However the body of a rule ended, its entry is closed. -/
theorem wp_leave {s t : State V} {outcome : Except Stop Match}
    (hg : (s.scanner.enterRule rule.qualifiedName).Grown t.scanner)
    (ho : ∀ m, outcome = .ok m → s.scanner.offset ≤ t.scanner.offset) :
    wp (Engine.leave rule s outcome)
      (fun _ u => Recorded rule.qualifiedName s.scanner u.scanner ∧ s.scanner.offset ≤ u.scanner.offset)
      (fun _ u => Recorded rule.qualifiedName s.scanner u.scanner) t := by
  have hoffset : ∀ matched, (t.scanner.leaveRule rule.qualifiedName s.scanner.cursor matched).offset = t.scanner.offset := by
    intro matched
    obtain ⟨_, h⟩ := t.scanner.leaveRule_eq rule.qualifiedName s.scanner.cursor matched
    rw [h]
    rfl
  unfold Engine.leave
  simp only [wp_bind, wp_onScanner]
  match outcome with
  | .error e => exact hg.leave false nofun
  | .ok .miss => exact ⟨hg.leave false nofun, (hoffset false).symm ▸ ho _ rfl⟩
  | .ok (.hit n) =>
    have hrecorded := hg.leave true fun _ => ho _ rfl
    have hahead := (hoffset true).symm ▸ ho _ rfl
    dsimp only
    rw [wp_bind]
    refine wp_mono (Silent.pushValue rule _ _) (fun _ u hu => ?_) fun _ u hu => hrecorded.after hu
    exact ⟨hrecorded.after hu.1, Nat.le_trans hahead hu.2⟩

theorem Calls.matchRule {body : Engine V Match} (h : ∀ s₀, Traced s₀ body) :
    Calls rule.qualifiedName (Engine.matchRule rule body) := by
  intro s
  unfold Engine.matchRule Engine.enter
  simp only [wp_bind, wp_get]
  split
  · exact ⟨[], .nothing rfl rfl rfl rfl, .inl rfl⟩
  · next args stack _ =>
    simp only [wp_bind, wp_setStack, wp_setContext, wp_onScanner, wp_attempt]
    refine wp_mono (h (s.scanner.enterRule rule.qualifiedName) _ .rfl) (fun m t ht => ?_) fun e t ht => ?_
    · have hahead : s.scanner.offset ≤ t.scanner.offset := by
        obtain ⟨_, he⟩ := s.scanner.enterRule_eq rule.qualifiedName
        have := ht.2
        rwa [he] at this
      exact wp_leave rule ht.1 fun _ _ => hahead
    · exact wp_leave rule ht nofun

end

/-- An invocation records a call of the rule with that number. -/
theorem Calls.invoke (rules : Array (Rule V)) (fuel : Nat) (id : RuleId) :
    Calls ((rules[id]?.map (·.qualifiedName)).getD "") (Engine.invoke rules fuel id) := by
  induction fuel generalizing id with
  | zero => exact .throw _ _
  | succ fuel ih =>
    unfold Engine.invoke
    cases rules[id]? with
    | none => exact .throw _ _
    | some rule => exact .matchRule rule fun s₀ => Traced.run (fun id => ⟨_, ih id⟩) rules fuel rule _

/-! ## Parses -/

/-- The start rule leaves one tree or nothing. -/
theorem wp_runStart {invoke : RuleId → Engine V Match} {rule : Rule V} {id : RuleId}
    (hk : ∀ id, ∃ rule, Calls rule (invoke id)) (hstart : Calls rule.qualifiedName (invoke id)) (depth : Nat)
    (s : State V) : wp (Engine.runStart invoke id rule depth)
      (fun _ t => Recorded rule.qualifiedName s.scanner t.scanner)
      (fun _ t => Recorded rule.qualifiedName s.scanner t.scanner) s := by
  have hend : ∀ m (t : State V), Recorded rule.qualifiedName s.scanner t.scanner →
      wp (Engine.endStart rule depth m) (fun _ u => Recorded rule.qualifiedName s.scanner u.scanner)
        (fun _ u => Recorded rule.qualifiedName s.scanner u.scanner) t := fun m t ht =>
    wp_mono (Silent.endStart rule depth m t) (fun _ _ h => ht.after h.1) fun _ _ h => ht.after h
  unfold Engine.runStart Engine.matchStart
  simp only [wp_bind]
  refine wp_mono (Silent.skip hk s) (fun _ t ht => ?_) fun _ t ht => ⟨[], ht, .inl rfl⟩
  refine wp_mono (hstart t) (fun m u hu => ?_) fun _ u hu => hu.before ht.1 ht.2
  have hrecorded := hu.1.before ht.1 ht.2
  split
  · simp only [wp_bind]
    refine wp_mono (Silent.skip hk u) (fun _ v hv => ?_) fun _ v hv => hrecorded.after hv
    exact hend m v (hrecorded.after hv.1)
  · exact hend m u hrecorded

/-- Parses without a trace. -/
def Relabelling.untraced : Relabelling := ⟨id, fun _ => none, fun _ _ _ _ _ _ => rfl⟩

theorem Relabelling.untraced_tables (rules : Array (Rule V)) : untraced.Tables rules rules := by
  intro n
  have hcall : Call.retarget untraced.rule = @id Call := by
    funext c
    simp [Call.retarget, untraced]
  show rules[n]? = rules[n]?.map (Rule.retarget untraced.rule)
  cases rules[n]? with
  | none => rfl
  | some rule =>
    rw [Option.map_some, Rule.retarget, hcall, Pattern.mapCalls_id]

namespace Domain

theorem parseIn_bracketed (d : Domain V) {g : Grammar} {start : RuleId} {rule : Rule V} (hs : g.start = some start)
    (hr : d.rules[start]? = some rule) (source : String) (options : Options) (ht : options.trace = true) {args : List V}
    (ha : args.length = rule.arity) (session : Session V) :
    ∃ t, (d.parseIn g source options args session).2.trace = some t ∧
      Trace.Bracketed rule.qualifiedName t.events.toList := by
  rw [parseIn_eq hs hr source options ha]
  have hstart : Calls rule.qualifiedName (Engine.invoke d.rules (d.fuelOf source) start) := by
    have := Calls.invoke d.rules (d.fuelOf source) start
    rwa [hr] at this
  have hrun := wp_runStart (fun id => ⟨_, Calls.invoke d.rules (d.fuelOf source) id⟩) hstart session.stack.size
    (startState g source options (session.stack.pushAll args))
  obtain ⟨events, hadds, hroot⟩ := wp_final hrun
  refine ⟨Trace.empty.extend events, ?_, ?_⟩
  · refine hadds.trace.trans ?_
    rw [show (startState g source options _).scanner.trace = some .empty from if_pos ht]
    rfl
  · have hevents : (Trace.empty.extend events).events.toList = events := by simp [Trace.empty, Trace.extend]
    rw [hevents]
    exact .of_root (hroot.imp_right And.right)

/-- Tracing is neutral: it changes neither the result nor the stack. What it records is well-bracketed, also if
the parse fails, and skipping leaves nothing in it. A parse that does not begin leaves the session as it was. -/
theorem parseIn_trace (d : Domain V) (g : Grammar) (source : String) (options : Options) (args : List V)
    (session : Session V) :
    (d.parseIn g source { options with trace := true } args session).1 =
      (d.parseIn g source { options with trace := false } args session).1 ∧
    (d.parseIn g source { options with trace := true } args session).2.stack =
      (d.parseIn g source { options with trace := false } args session).2.stack ∧
    (∀ fuel (s : State V), (outcome (Engine.skip (Engine.invoke d.rules fuel)) s).2.scanner.trace = s.scanner.trace) ∧
    ((∃ start rule t, g.start = some start ∧ d.rule? start = some rule ∧ args.length = rule.arity ∧
        (d.parseIn g source { options with trace := true } args session).2.trace = some t ∧
        Trace.Bracketed rule.qualifiedName t.events.toList) ∨
      (∀ start rule, g.start = some start → d.rule? start = some rule → args.length ≠ rule.arity) ∧
        (d.parseIn g source { options with trace := true } args session).2 = session) := by
  obtain ⟨hresult, hstack, _⟩ := parseIn_relabel (ρ := .untraced) (Relabelling.untraced_tables d.rules) rfl (g := g) rfl
    (by simp [Relabelling.untraced]) (by simp [Relabelling.untraced]) { options with trace := true }
    { options with trace := false } rfl rfl rfl source args session
  refine ⟨hresult.symm, hstack.symm, fun fuel s => ?_, ?_⟩
  · exact (wp_final (wp_mono (Silent.skip (fun id => ⟨_, Calls.invoke d.rules fuel id⟩) s) (fun _ _ h => h.1)
      fun _ _ h => h)).trace_eq
  · by_cases hbegins : ∃ start rule, g.start = some start ∧ d.rule? start = some rule ∧ args.length = rule.arity
    · obtain ⟨start, rule, hs, hr, ha⟩ := hbegins
      obtain ⟨t, ht, hbracketed⟩ := d.parseIn_bracketed hs hr source { options with trace := true } rfl ha session
      exact .inl ⟨start, rule, t, hs, hr, ha, ht, hbracketed⟩
    · refine .inr ⟨fun start rule hs hr ha => hbegins ⟨start, rule, hs, hr, ha⟩, ?_⟩
      unfold parseIn
      split
      · next start rule hs hr =>
        rw [if_pos fun ha => hbegins ⟨start, rule, hs, by rwa [hs] at hr, ha⟩]
      · rfl

end Domain

end PegFront
