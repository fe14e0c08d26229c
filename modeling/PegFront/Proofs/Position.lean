import PegFront.Proofs.History
import PegFront.Proofs.Place

/-!
# Positions of a run

A run that misses ends where it began, and a run that hits a length ends that length further on; this
holds of every pattern and of every rule, whatever its actions do. In between, every terminal, every
application of the skip rule and every action happens at a place of the input, so the input can be cut
wherever the engine looks at it.

The statements are about recorders, where a history tells what happened; `Erases` carries them over to
the engine. `Disciplined` is the law for whatever ends in a match, `Advancing` the one for skipping and
for the loops, which only ever move on.
-/

namespace PegFront

variable {V α : Type}

/-! ## What a run keeps -/

/-- What the history says took place at a place of the input; an action saw the text between two. -/
def Event.Placed (i : Input) : Event V → Prop
  | .tried _ offset _ _ => i.Boundary offset
  | .skipped offset => i.Boundary offset
  | .acted _ _ _ m => i.Boundary m.span.start ∧ i.Boundary m.span.stop ∧
      Text.slice? i.text m.span.start m.span.stop = some m.text.toList
  | .called .. => True
  | .matched .. => True

/-- The scanner stands at a place of the input `i`, and so did everything in the history. -/
structure Sound (i : Input) (p : State V × List (Event V)) : Prop where
  input : p.1.scanner.input = i
  cursor : p.1.scanner.cursor.In i
  events : ∀ e ∈ p.2, e.Placed i

/-- A match that began at `c`: back at `c` on a miss, its length further on a hit. -/
def Ended (i : Input) (c : Cursor) (m : Match) (p : State V × List (Event V)) : Prop :=
  Sound i p ∧ match m with
    | .miss => p.1.scanner.cursor = c
    | .hit n => p.1.scanner.offset = c.offset + n

def Disciplined (r : Recorder V Match) : Prop :=
  ∀ i p, Sound i p → wp r (Ended i p.1.scanner.cursor) (fun _ => Sound i) p

/-- At `c` or further on. -/
def Ahead (i : Input) (c : Cursor) (p : State V × List (Event V)) : Prop :=
  Sound i p ∧ c.offset ≤ p.1.scanner.offset

def Advancing (r : Recorder V Unit) : Prop :=
  ∀ i p, Sound i p → wp r (fun _ => Ahead i p.1.scanner.cursor) (fun _ => Sound i) p

namespace Sound

variable {i : Input} {p : State V × List (Event V)}

theorem state (h : Sound i p) (t : State V) (hi : t.scanner.input = p.1.scanner.input)
    (hc : t.scanner.cursor = p.1.scanner.cursor) : Sound i (t, p.2) :=
  ⟨hi.trans h.input, hc ▸ h.cursor, h.events⟩

theorem moveTo (h : Sound i p) {c : Cursor} (hc : c.In i) :
    Sound i ({ p.1 with scanner := p.1.scanner.moveTo c }, p.2) := ⟨h.input, hc, h.events⟩

theorem record (h : Sound i p) {e : Event V} (he : e.Placed i) : Sound i (p.1, e :: p.2) := by
  refine ⟨h.input, h.cursor, fun e' he' => ?_⟩
  rcases List.mem_cons.1 he' with rfl | he'
  · exact he
  · exact h.events e' he'

theorem offset (h : Sound i p) : i.Boundary p.1.scanner.offset := h.cursor.boundary

end Sound

/-! ## Terminals -/

/-- A terminal never stops, and its match ends where its length says. -/
def PlacedMatch (m : Engine V Match) : Prop :=
  ∀ (i : Input) (s : State V), s.scanner.input = i → s.scanner.cursor.In i →
    wp m (fun a t => t.scanner.input = i ∧ t.scanner.cursor.In i ∧ match a with
      | .miss => t.scanner.cursor = s.scanner.cursor
      | .hit n => t.scanner.offset = s.scanner.offset + n) (fun _ _ => False) s

namespace PlacedMatch

open Engine

theorem missed (what : String) : PlacedMatch (Engine.missed what : Engine V Match) := by
  intro i s hi hc
  obtain ⟨_, _, hn⟩ := s.scanner.note_eq what
  rw [wp_missed, hn]
  exact ⟨hi, hc, rfl⟩

theorem matchOne (kind : CharKind) : PlacedMatch (Engine.matchOne kind : Engine V Match) := by
  intro i s hi hc
  unfold Engine.matchOne
  simp only [wp_bind, wp_here]
  split
  · next c after hn =>
    obtain ⟨ha, ho⟩ := hc.next hn
    split
    · exact ⟨hi, ha, ho⟩
    · exact missed _ i s hi hc
  · exact missed _ i s hi hc

theorem matchText (literal : String) : PlacedMatch (Engine.matchText literal : Engine V Match) := by
  intro i s hi hc
  unfold Engine.matchText
  simp only [wp_bind, wp_here]
  split
  · next after hn =>
    obtain ⟨ha, ho⟩ := hc.after hn
    exact ⟨hi, ha, by rw [← Text.byteLength_toList]; exact ho⟩
  · exact missed _ i s hi hc

theorem matchKeyword (word : String) : PlacedMatch (Engine.matchKeyword word : Engine V Match) := by
  intro i s hi hc
  unfold Engine.matchKeyword
  simp only [wp_bind, wp_here]
  split
  · next after hn =>
    obtain ⟨ha, ho⟩ := hc.after hn
    split
    · exact missed _ i s hi hc
    · exact ⟨hi, ha, by rw [← Text.byteLength_toList]; exact ho⟩
  · exact missed _ i s hi hc

end PlacedMatch

theorem Disciplined.terminal {p : Pattern} {m : Engine V Match} (hm : PlacedMatch m) :
    Disciplined (Recorder.terminal p m) := by
  intro i p hp
  unfold Recorder.terminal
  simp only [wp_bind, Recorder.wp_state, Recorder.wp_lift, Recorder.wp_record, wp_pure]
  refine wp_mono (hm i p.1 hp.input hp.cursor) (fun a t ⟨hi, hc, ha⟩ => ?_) fun _ _ => False.elim
  have hs : Sound i (t, p.2) := ⟨hi, hc, hp.events⟩
  exact ⟨hs.record hp.offset, ha⟩

/-! ## Steps that stay in place -/

/-- Where the scanner stands, what it scans and what it skips are the same. -/
structure Stays (s t : State V) : Prop where
  input : t.scanner.input = s.scanner.input
  cursor : t.scanner.cursor = s.scanner.cursor
  skipRule : t.scanner.skipRule = s.scanner.skipRule

theorem Stays.trans {s t u : State V} (h : Stays s t) (h' : Stays t u) : Stays s u :=
  ⟨h'.input.trans h.input, h'.cursor.trans h.cursor, h'.skipRule.trans h.skipRule⟩

/-- The step moves nothing. It ends with a value that satisfies `P` or stops for a reason in `E`. -/
def Still (m : Engine V α) (P : α → Prop) (E : Stop → Prop) : Prop :=
  ∀ s : State V, wp m (fun a t => P a ∧ Stays s t) (fun e t => E e ∧ Stays s t) s

namespace Still

open Engine

theorem sound {m : Engine V α} {P : α → Prop} {E : Stop → Prop} (hm : Still m P E) {i : Input}
    {p : State V × List (Event V)} (h : Sound i p) :
    wp (Recorder.lift m) (fun a q => P a ∧ Sound i q ∧ q.1.scanner.cursor = p.1.scanner.cursor)
      (fun _ => Sound i) p := by
  rw [Recorder.wp_lift]
  refine wp_mono (hm p.1) (fun a t ⟨ha, ht⟩ => ?_) fun _ t ⟨_, ht⟩ => ?_
  · exact ⟨ha, h.state t ht.input ht.cursor, ht.cursor⟩
  · exact h.state t ht.input ht.cursor

theorem passArguments (rule : Rule V) (call : Call) :
    Still (Engine.passArguments rule call) (call.target = some ·) (· ≠ .exhausted) := by
  intro s
  unfold Engine.passArguments
  simp only [wp_bind, wp_get]
  cases call.target with
  | none => exact ⟨nofun, rfl, rfl, rfl⟩
  | some target =>
    dsimp only
    split
    · exact ⟨nofun, rfl, rfl, rfl⟩
    · exact ⟨rfl, rfl, rfl, rfl⟩

theorem takeUpValue (rule : Rule V) (call : Call) (callee : Rule V) :
    Still (Engine.takeUpValue rule call callee) (fun _ => True) (· ≠ .exhausted) := by
  intro s
  unfold Engine.takeUpValue
  split
  · simp only [wp_bind, wp_get]
    split
    · exact ⟨nofun, rfl, rfl, rfl⟩
    · exact ⟨trivial, rfl, rfl, rfl⟩
  · exact ⟨trivial, rfl, rfl, rfl⟩

theorem endCall (rules : Array (Rule V)) (rule : Rule V) (call : Call) (target : RuleId) (m : Match) :
    Still (Engine.endCall rules rule call target m) (· = m) (· ≠ .exhausted) := by
  intro s
  unfold Engine.endCall
  split
  · exact wp_then (takeUpValue rule call _ s) fun _ _ h => ⟨rfl, h.2⟩
  · exact ⟨rfl, rfl, rfl, rfl⟩

theorem enter (rule : Rule V) : Still (Engine.enter rule) (fun _ => True) (· ≠ .exhausted) := by
  intro s
  unfold Engine.enter
  simp only [wp_bind, wp_get]
  split
  · exact ⟨nofun, rfl, rfl, rfl⟩
  · obtain ⟨_, he⟩ := s.scanner.enterRule_eq rule.qualifiedName
    simp only [wp_bind, wp_setStack, wp_setContext, wp_onScanner, he]
    exact ⟨trivial, rfl, rfl, rfl⟩

theorem pushValue (rule : Rule V) (start : Cursor) :
    Still (Engine.pushValue rule start) (fun _ => True) (· ≠ .exhausted) := by
  intro s
  unfold Engine.pushValue
  split
  · simp only [wp_bind, wp_get]
    split
    · exact ⟨trivial, rfl, rfl, rfl⟩
    · exact ⟨nofun, rfl, rfl, rfl⟩
  · exact ⟨trivial, rfl, rfl, rfl⟩

theorem leave (rule : Rule V) (before : State V) (outcome : Except Stop Match) :
    Still (Engine.leave rule before outcome) (outcome = .ok ·)
      (fun e => outcome = .error e ∨ e ≠ .exhausted) := by
  intro s
  unfold Engine.leave
  simp only [wp_bind, wp_onScanner]
  have hl : ∀ matched, Stays s
      { s with scanner := s.scanner.leaveRule rule.qualifiedName before.scanner.cursor matched } := by
    intro matched
    obtain ⟨_, hl⟩ := s.scanner.leaveRule_eq rule.qualifiedName before.scanner.cursor matched
    rw [hl]
    exact ⟨rfl, rfl, rfl⟩
  match outcome with
  | .error e => exact ⟨.inl rfl, hl _⟩
  | .ok .miss => exact ⟨rfl, (hl _).trans ⟨rfl, rfl, rfl⟩⟩
  | .ok (.hit n) =>
    refine (wp_bind _ _).2 (wp_mono (pushValue rule before.scanner.cursor _) ?_ ?_)
    · exact fun _ t ⟨_, ht⟩ => ⟨rfl, ((hl _).trans ht).trans ⟨rfl, rfl, rfl⟩⟩
    · exact fun e t ⟨he, ht⟩ => ⟨.inr he, (hl _).trans ht⟩

end Still

/-! ## Skipping and repetition -/

namespace Ahead

variable {i : Input} {c d : Cursor} {p : State V × List (Event V)}

theorem trans (h : Ahead i d p) (hd : c.offset ≤ d.offset) : Ahead i c p := ⟨h.1, Nat.le_trans hd h.2⟩

/-- The hit from `c` up to a place further on. -/
theorem hitFrom (h : Ahead i c p) : Ended i c (.hit (p.1.scanner.offset - c.offset)) p := by
  refine ⟨h.1, ?_⟩
  show p.1.scanner.offset = c.offset + (p.1.scanner.offset - c.offset)
  have := h.2
  omega

end Ahead

theorem Ended.ahead {i : Input} {c : Cursor} {n : Nat} {p : State V × List (Event V)}
    (h : Ended i c (.hit n) p) : Ahead i c p := by
  have : p.1.scanner.offset = c.offset + n := h.2
  exact ⟨h.1, by omega⟩

/-- A match stays ended under what moves nothing. -/
theorem Ended.still {i : Input} {c : Cursor} {m : Match} {p q : State V × List (Event V)}
    (h : Ended i c m p) (hq : Sound i q) (hc : q.1.scanner.cursor = p.1.scanner.cursor) :
    Ended i c m q := by
  refine ⟨hq, ?_⟩
  have hm := h.2
  cases m with
  | miss => exact hc.trans hm
  | hit n => exact (congrArg Cursor.offset hc).trans hm

namespace Advancing

open Recorder

theorem skip {invoke : RuleId → Recorder V Match} (hk : ∀ id, Disciplined (invoke id)) :
    Advancing (Recorder.skip invoke) := by
  intro i p h
  unfold Recorder.skip
  simp only [wp_bind, wp_state]
  split
  · exact ⟨h, Nat.le_refl _⟩
  · next id _ =>
    split
    · simp only [wp_bind, wp_record, wp_attempt, wp_bracket]
      have hr : Sound i (p.1, .skipped p.1.scanner.offset :: p.2) := h.record h.offset
      refine wp_mono (hk id i _ (hr.state _ rfl rfl)) (fun m q hq => ?_) fun e q hq => ?_
      · rw [wp_lift]
        cases m with
        | miss => exact ⟨⟨hq.1.input, h.cursor, hq.1.events⟩, Nat.le_refl _⟩
        | hit n => exact ⟨hq.1.state _ rfl rfl, hq.ahead.2⟩
      · exact hq.state _ rfl rfl
    · exact ⟨h, Nat.le_refl _⟩

theorem repeatBody {skip : Recorder V Unit} {body : Recorder V Match} (hs : Advancing skip)
    (hb : Disciplined body) (fuel : Nat) (first : Bool) :
    Advancing (Recorder.repeatBody skip body fuel first) := by
  induction fuel generalizing first with
  | zero => exact fun i p h => h
  | succ fuel ih =>
    intro i p h
    unfold Recorder.repeatBody
    simp only [wp_bind, wp_state]
    split
    · exact ⟨h, Nat.le_refl _⟩
    -- A round that begins at `p` or, after skipping, further on.
    have round : ∀ q, Ahead i p.1.scanner.cursor q →
        wp (body >>= fun m => match m with
          | .miss => lift (Engine.moveTo p.1.scanner.cursor)
          | .hit _ => Recorder.repeatBody skip body fuel false)
          (fun _ => Ahead i p.1.scanner.cursor) (fun _ => Sound i) q := by
      intro q hq
      refine wp_then (hb i q hq.1) fun m t ht => ?_
      cases m with
      | miss => exact ⟨ht.1.moveTo h.cursor, Nat.le_refl _⟩
      | hit n =>
        refine wp_mono (ih false i t ht.1) (fun _ u hu => ?_) fun _ _ hu => hu
        exact hu.trans (Nat.le_trans hq.2 ht.ahead.2)
    cases first with
    | true => exact round p ⟨h, Nat.le_refl _⟩
    | false => exact wp_then (hs i p h) fun _ q hq => round q hq

theorem repeatItems {skip : Recorder V Unit} {separator item : Recorder V Match}
    (hs : Advancing skip) (hp : Disciplined separator) (hi : Disciplined item) (fuel : Nat) :
    Advancing (Recorder.repeatItems skip separator item fuel) := by
  induction fuel with
  | zero => exact fun i p h => h
  | succ fuel ih =>
    intro i p h
    unfold Recorder.repeatItems
    simp only [wp_bind, wp_lift, Engine.wp_here]
    refine wp_mono (hs i p h) (fun _ q hq => ?_) fun _ _ hq => hq
    refine wp_mono (hp i q hq.1) (fun m t ht => ?_) fun _ _ ht => ht
    cases m with
    | miss => exact ⟨ht.1.moveTo h.cursor, Nat.le_refl _⟩
    | hit n =>
      refine wp_then (hs i t ht.1) fun _ u hu => ?_
      refine wp_then (hi i u hu.1) fun m v hv => ?_
      cases m with
      | miss => exact ⟨hv.1.moveTo h.cursor, Nat.le_refl _⟩
      | hit n =>
        refine wp_mono (ih i v hv.1) (fun _ w hw => ?_) fun _ _ hw => hw
        exact hw.trans (Nat.le_trans hq.2 (Nat.le_trans ht.ahead.2 (Nat.le_trans hu.2 hv.ahead.2)))

end Advancing

/-! ## Actions, calls and patterns -/

namespace Disciplined

open Recorder

/-- An action runs on the text between two places. -/
theorem runAction (rule : Rule V) (action : String) {i : Input} {c : Cursor} {n : Nat}
    {p : State V × List (Event V)} (hc : c.In i) (h : Ended i c (.hit n) p) :
    wp (Recorder.runAction rule action c n) (Ended i c) (fun _ => Sound i) p := by
  obtain ⟨hs, ho⟩ := h
  have ho : p.1.scanner.offset = c.offset + n := ho
  unfold Recorder.runAction
  simp only [wp_bind, wp_state, wp_record, wp_lift]
  have hr : Sound i (p.1, .acted rule action p.1.context (Engine.matchedSince c p.1.scanner) :: p.2) := by
    refine hs.record ⟨hc.boundary, hs.offset, ?_⟩
    have hle : c.offset ≤ p.1.scanner.offset := by omega
    have ht : Text.slice? i.text c.offset p.1.scanner.offset =
        some (c.textTo p.1.scanner.offset) := hc.slice_textTo hs.cursor hle
    simpa only [Engine.matchedSince, Scanner.spanFrom, String.toList_ofList] using ht
  unfold Engine.runAction
  simp only [wp_bind, wp_get]
  split
  · exact hr
  · next f _ =>
    rcases f p.1.context (Engine.matchedSince c p.1.scanner) with ⟨verdict, context⟩
    cases verdict with
    | pass => exact ⟨hr.state _ rfl rfl, ho⟩
    | reject => exact ⟨⟨hr.input, hc, hr.events⟩, rfl⟩
    | fail cause => exact hr.state _ rfl rfl

theorem performCall (rules : Array (Rule V)) {invoke : RuleId → Recorder V Match}
    (hk : ∀ id, Disciplined (invoke id)) (rule : Rule V) (call : Call) :
    Disciplined (Recorder.performCall rules invoke rule call) := by
  intro i p h
  unfold Recorder.performCall
  simp only [wp_bind, wp_state, wp_record]
  have hr : Sound i (p.1, .called rule call p.1.context :: p.2) := h.record trivial
  refine wp_mono ((Still.passArguments rule call).sound hr) (fun target q ⟨_, hq, hc⟩ => ?_)
    fun _ _ hq => hq
  refine wp_mono (hk target i q hq) (fun m t ht => ?_) fun _ _ ht => ht
  rw [hc] at ht
  refine wp_mono ((Still.endCall rules rule call target m).sound ht.1) (fun m' u ⟨hm, hu, hcu⟩ => ?_)
    fun _ _ hu => hu
  subst hm
  exact ht.still hu hcu

theorem run (rules : Array (Rule V)) (fuel : Nat) {invoke : RuleId → Recorder V Match}
    (hk : ∀ id, Disciplined (invoke id)) (rule : Rule V) (p : Pattern) :
    Disciplined (p.record rules fuel invoke rule) := by
  have hs := Advancing.skip hk
  induction p with
  | empty => exact fun i p h => ⟨h, rfl⟩
  | one kind => exact terminal (.matchOne kind)
  | text literal => exact terminal (.matchText literal)
  | keyword word => exact terminal (.matchKeyword word)
  | keywords selector words ih =>
    intro i p h
    simp only [Pattern.record, wp_bind, wp_lift, Engine.wp_here]
    refine wp_mono (ih i p h) (fun m q hq => ?_) fun _ _ hq => hq
    split
    · exact hq
    · have hmissed : Disciplined (Recorder.terminal (.keywords selector words)
          (Engine.missed (Pattern.keywords selector words).describe : Engine V Match)) := terminal (.missed _)
      simp only [wp_bind, wp_lift, Engine.wp_moveTo]
      have hend := hmissed i _ (hq.1.moveTo h.cursor)
      exact hend
  | seq first second ih₁ ih₂ =>
    intro i p h
    simp only [Pattern.record, wp_bind, wp_lift, Engine.wp_here]
    refine wp_mono (ih₁ i p h) (fun m q hq => ?_) fun _ _ hq => hq
    cases m with
    | miss => exact hq
    | hit n =>
      simp only [wp_bind, wp_lift, Engine.wp_here]
      refine wp_mono (hs i q hq.1) (fun _ t ht => ?_) fun _ _ ht => ht
      refine wp_mono (ih₂ i t ht.1) (fun m u hu => ?_) fun _ _ hu => hu
      match m with
      | .miss => exact ⟨hu.1.moveTo h.cursor, rfl⟩
      | .hit 0 =>
        exact Ahead.hitFrom ⟨hu.1.moveTo hq.1.cursor, hq.ahead.2⟩
      | .hit (n + 1) =>
        exact (hu.ahead.trans (Nat.le_trans hq.ahead.2 ht.2)).hitFrom
  | alt first second ih₁ ih₂ =>
    intro i p h
    simp only [Pattern.record, wp_bind, wp_lift, Engine.wp_here]
    refine wp_mono (ih₁ i p h) (fun m q hq => ?_) fun _ _ hq => hq
    cases m with
    | hit n => exact hq
    | miss => exact ih₂ i _ (hq.1.moveTo h.cursor)
  | diff subject excluded ih₁ ih₂ =>
    intro i p h
    simp only [Pattern.record, wp_bind, wp_lift, Engine.wp_here]
    refine wp_mono (ih₁ i p h) (fun m q hq => ?_) fun _ _ hq => hq
    cases m with
    | miss => exact ⟨hq.1.moveTo h.cursor, rfl⟩
    | hit n =>
      simp only [wp_bind, wp_lift, Engine.wp_here, Engine.wp_moveTo]
      refine wp_mono (ih₂ i _ (hq.1.moveTo h.cursor)) (fun m t ht => ?_) fun _ _ ht => ht
      split
      · exact ⟨ht.1.moveTo h.cursor, rfl⟩
      · exact ⟨ht.1.moveTo hq.1.cursor, hq.2⟩
  | list item separator ih₁ ih₂ =>
    intro i p h
    simp only [Pattern.record, wp_bind, wp_lift, Engine.wp_here]
    refine wp_mono (ih₁ i p h) (fun m q hq => ?_) fun _ _ hq => hq
    cases m with
    | miss => exact hq
    | hit n =>
      refine wp_then (Advancing.repeatItems hs ih₂ ih₁ fuel i q hq.1) fun _ t ht => ?_
      exact (ht.trans hq.ahead.2).hitFrom
  | opt subject ih =>
    intro i p h
    simp only [Pattern.record, wp_bind, wp_lift, Engine.wp_here]
    refine wp_mono (ih i p h) (fun m q hq => ?_) fun _ _ hq => hq
    cases m with
    | hit n => exact hq
    | miss => exact ⟨hq.1.moveTo h.cursor, rfl⟩
  | many subject ih =>
    intro i p h
    simp only [Pattern.record, wp_bind, wp_lift, Engine.wp_here]
    refine wp_mono (Advancing.repeatBody hs ih fuel true i p h) (fun _ q hq => ?_) fun _ _ hq => hq
    exact hq.hitFrom
  | many1 subject ih =>
    intro i p h
    simp only [Pattern.record, wp_bind, wp_lift, Engine.wp_here]
    refine wp_mono (ih i p h) (fun m q hq => ?_) fun _ _ hq => hq
    cases m with
    | miss => exact hq
    | hit n =>
      refine wp_then (Advancing.repeatBody hs ih fuel false i q hq.1) fun _ t ht => ?_
      exact (ht.trans hq.ahead.2).hitFrom
  | expect subject ih =>
    intro i p h
    simp only [Pattern.record, wp_bind]
    refine wp_mono (ih i p h) (fun m q hq => ?_) fun _ _ hq => hq
    cases m with
    | hit n => exact hq
    | miss => exact hq.1
  | token subject ih =>
    intro i p h
    simp only [Pattern.record, wp_bracket]
    refine wp_mono (ih i _ (h.state _ rfl rfl)) (fun m q hq => ?_) fun _ q hq => ?_
    · exact ⟨hq.1.state _ rfl rfl, hq.2⟩
    · exact hq.state _ rfl rfl
  | lookahead subject ih =>
    intro i p h
    simp only [Pattern.record, wp_bind, wp_lift, Engine.wp_here, Engine.wp_moveTo, wp_pure]
    refine wp_mono (ih i p h) (fun m q hq => ?_) fun _ _ hq => hq
    cases m <;> exact ⟨hq.1.moveTo h.cursor, rfl⟩
  | notAhead subject ih =>
    intro i p h
    simp only [Pattern.record, wp_bind, wp_lift, Engine.wp_here, Engine.wp_moveTo, wp_pure]
    refine wp_mono (ih i p h) (fun m q hq => ?_) fun _ _ hq => hq
    cases m <;> exact ⟨hq.1.moveTo h.cursor, rfl⟩
  | act action subject ih =>
    intro i p h
    simp only [Pattern.record, wp_bind, wp_lift, Engine.wp_here]
    refine wp_mono (ih i p h) (fun m q hq => ?_) fun _ _ hq => hq
    cases m with
    | miss => exact hq
    | hit n => exact runAction rule action h.cursor hq
  | call c => exact performCall rules hk rule c

theorem matchRule (rule : Rule V) {body : Recorder V Match} (hb : Disciplined body) :
    Disciplined (Recorder.matchRule rule body) := by
  intro i p h
  unfold Recorder.matchRule
  simp only [wp_bind, wp_state, wp_attempt]
  refine wp_mono ((Still.enter rule).sound h) (fun _ q ⟨_, hq, hc⟩ => ?_) fun _ _ hq => hq
  refine wp_mono (hb i q hq) (fun m t ht => ?_) fun e t ht => ?_
  · rw [hc] at ht
    have ends : ∀ u, Ended i p.1.scanner.cursor m u →
        wp (lift (Engine.leave rule p.1 (.ok m))) (Ended i p.1.scanner.cursor) (fun _ => Sound i) u := by
      intro u hu
      refine wp_mono ((Still.leave rule p.1 (.ok m)).sound hu.1) (fun m' v ⟨hm, hv, hcv⟩ => ?_)
        fun _ _ hv => hv
      cases hm
      exact hu.still hv hcv
    cases m with
    | miss => exact ends t ht
    | hit n =>
      have hr : Sound i (t.1, .matched rule t.1.context :: t.2) := ht.1.record trivial
      exact ends _ (ht.still hr rfl)
  · refine wp_mono ((Still.leave rule p.1 (.error e)).sound ht) (fun m u ⟨hm, _⟩ => ?_) fun _ _ hu => hu
    cases hm

theorem invoke (rules : Array (Rule V)) (fuel : Nat) (id : RuleId) :
    Disciplined (Recorder.invoke rules fuel id) := by
  induction fuel generalizing id with
  | zero => exact fun i p h => h
  | succ fuel ih =>
    unfold Recorder.invoke
    cases rules[id]? with
    | none => exact fun i p h => h
    | some rule => exact matchRule rule (run rules fuel ih rule _)

end Disciplined

/-! ## Runs of the engine -/

/-- A match from `s` ended in `t` as it should. -/
structure Reached (s : State V) (m : Match) (t : State V) : Prop where
  input : t.scanner.input = s.scanner.input
  cursor : t.scanner.cursor.In s.scanner.input
  ends : match m with
    | .miss => t.scanner.cursor = s.scanner.cursor
    | .hit n => t.scanner.offset = s.scanner.offset + n

/-- From `s` the scanner went on to `t`. -/
structure Onward (s t : State V) : Prop where
  input : t.scanner.input = s.scanner.input
  cursor : t.scanner.cursor.In s.scanner.input
  le : s.scanner.offset ≤ t.scanner.offset

theorem Disciplined.reached {r : Recorder V Match} {m : Engine V Match} (hr : Disciplined r)
    (he : Erases r m) {s : State V} (hs : s.scanner.cursor.In s.scanner.input) :
    wp m (Reached s) (fun _ _ => True) s := by
  refine he.wp (wp_mono (hr s.scanner.input (s, []) ⟨rfl, hs, nofun⟩) (fun m q hq => ?_) fun _ _ _ => trivial)
  exact ⟨hq.1.input, hq.1.cursor, hq.2⟩

theorem Advancing.onward {r : Recorder V Unit} {m : Engine V Unit} (hr : Advancing r)
    (he : Erases r m) {s : State V} (hs : s.scanner.cursor.In s.scanner.input) :
    wp m (fun _ => Onward s) (fun _ _ => True) s := by
  refine he.wp (wp_mono (hr s.scanner.input (s, []) ⟨rfl, hs, nofun⟩) (fun m q hq => ?_) fun _ _ _ => trivial)
  exact ⟨hq.1.input, hq.1.cursor, hq.2⟩

/-! ## The law of positions -/

/-- The run of `m` from `s` obeys the law of positions, and `r` tells its history. -/
structure Positioned (r : Recorder V Match) (m : Engine V Match) (s : State V) : Prop where
  history : ∃ events, outcome r (s, []) = ((outcome m s).1, (outcome m s).2, events) ∧
    ∀ e ∈ events, e.Placed s.scanner.input
  miss : (outcome m s).1 = .ok .miss → (outcome m s).2.scanner.cursor = s.scanner.cursor
  hit : ∀ n, (outcome m s).1 = .ok (.hit n) → (outcome m s).2.scanner.offset = s.scanner.offset + n
  input : (outcome m s).2.scanner.input = s.scanner.input
  boundary : s.scanner.input.Boundary (outcome m s).2.scanner.offset

theorem Disciplined.positioned {r : Recorder V Match} {m : Engine V Match} (hr : Disciplined r)
    (he : Erases r m) {s : State V} (hs : s.scanner.cursor.In s.scanner.input) :
    Positioned r m s := by
  have h : wp r _ _ (s, []) := hr s.scanner.input (s, []) ⟨rfl, hs, fun _ he => nomatch he⟩
  obtain ⟨events, ho⟩ := he s []
  rcases hm : outcome m s with ⟨e | m, t⟩
  · rw [hm] at ho
    have hl : Sound s.scanner.input (t, events) := wp_error h ho
    refine ⟨⟨events, by rw [ho, hm], hl.events⟩, ?_, ?_, ?_, ?_⟩ <;> rw [hm]
    · exact nofun
    · exact nofun
    · exact hl.input
    · exact hl.offset
  · rw [hm] at ho
    obtain ⟨hl, hend⟩ : Ended s.scanner.input s.scanner.cursor m (t, events) := wp_ok h ho
    refine ⟨⟨events, by rw [ho, hm], hl.events⟩, ?_, ?_, ?_, ?_⟩ <;> rw [hm]
    · rintro ⟨⟩; exact hend
    · rintro n ⟨⟩; exact hend
    · exact hl.input
    · exact hl.offset

/-- Every pattern of every rule, and every rule of every table, obeys the law of positions from every
place of every input. -/
theorem position_law (rules : Array (Rule V)) (fuel : Nat) (s : State V)
    (hs : s.scanner.cursor.In s.scanner.input) :
    (∀ (rule : Rule V) (p : Pattern),
      Positioned (p.record rules fuel (Recorder.invoke rules fuel) rule)
        (p.run rules fuel (Engine.invoke rules fuel) rule) s) ∧
    ∀ id, Positioned (Recorder.invoke rules fuel id) (Engine.invoke rules fuel id) s := by
  constructor
  · intro rule p
    exact (Disciplined.run rules fuel (Disciplined.invoke rules fuel) rule p).positioned
      (Erases.run rules fuel (Erases.invoke rules fuel) rule p) hs
  · intro id
    exact (Disciplined.invoke rules fuel id).positioned (Erases.invoke rules fuel id) hs

/-- The law for a rule that starts inside a text, after a char of two bytes. -/
theorem position_law_after_wide_char :
    let rules : Array (Rule Unit) := #[.new "Tail" (.seq (.text "a") (.many (.one .any)))]
    let s : State Unit :=
      ⟨{ Scanner.new (.whole ['é', 'a', 'ß'] 0 "f") with cursor := ⟨2, ['a', 'ß']⟩ }, .empty, .empty⟩
    s.scanner.cursor.In s.scanner.input ∧
      Positioned (Recorder.invoke rules 3 0) (Engine.invoke rules 3 0) s ∧
      (outcome (Engine.invoke rules 3 0) s).1.toOption = some (.hit 3) := by
  intro rules s
  have hs : s.scanner.cursor.In s.scanner.input := ⟨by decide, by decide⟩
  exact ⟨hs, (position_law rules 3 s hs).2 0, by decide +kernel⟩

end PegFront
