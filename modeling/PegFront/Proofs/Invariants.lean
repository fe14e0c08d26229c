import PegFront.Proofs.Position

/-!
# Invariants of the failure record

The scanner keeps the farthest place at which a terminal missed and what was expected there, and this record
outlives backtracking: nothing but a terminal changes it. So an invariant of the record and the history that
the terminals keep is kept by every run, whatever it does with places, stack and contexts (`Upholds.invoke`).

The same walk tells where the errors of a run point: an error that an action reports has the span of the
match it saw, a missing construct has the span of the char that stands there, and all other errors have a
span between two places.
-/

namespace PegFront

variable {V α β : Type}

/-! ## Errors and their places -/

/-- The origin of an error about a span of the input. -/
def Input.originOf (i : Input) (span : Span) : Origin := ⟨i.file, span, Source.position i.text span.start⟩

/-- Where an error of a run on the input points. -/
inductive Pointed (i : Input) (events : List (Event V)) (e : ParseError) : Prop
  /-- An action failed the parse on the match it saw. -/
  | action {rule : Rule V} {name f context m} (hmem : .acted rule name context m ∈ events)
      (hf : rule.action? name = some f) (hv : (f context m).1 = .fail e.cause) (hfile : m.span.file = i.fileIndex)
      (ho : e.origin = some (i.originOf m.span))
  /-- Something else stands where a construct was expected. -/
  | char {c : Cursor} (hc : c.In i)
      (ho : e.origin =
        some (i.originOf ⟨i.fileIndex, c.offset, c.offset + Text.byteLength (c.rest.take 1)⟩))
  | between {c d : Cursor} (hc : c.In i) (hd : d.In i) (hle : c.offset ≤ d.offset)
      (hcause : e.cause.expected? = none) (ho : e.origin = some (i.originOf ⟨i.fileIndex, c.offset, d.offset⟩))

/-- The run stopped with an error that points into the input, or for lack of fuel. -/
def Points (i : Input) (events : List (Event V)) (stop : Stop) : Prop :=
  ∀ e, stop = .error e → Pointed i events e

theorem Input.Boundary.exists_cursor {i : Input} {offset : Nat} (h : i.Boundary offset) :
    ∃ c : Cursor, c.In i ∧ c.offset = offset := by
  obtain ⟨rest, hr⟩ := Option.isSome_iff_exists.1 h.2
  exact ⟨⟨offset, rest⟩, ⟨h.1, hr⟩, rfl⟩

/-- The char that stands at a place. -/
theorem Scanner.charSpanAt_eq {s : Scanner} {c : Cursor} (hc : c.In s.input) :
    s.charSpanAt c.offset =
      ⟨s.input.fileIndex, c.offset, c.offset + Text.byteLength (c.rest.take 1)⟩ := by
  unfold Scanner.charSpanAt Input.cursorAt
  rw [Nat.min_eq_left hc.offset_le, hc.slice, Option.getD_some]
  rcases c.rest with _ | ⟨ch, rest⟩
  · rfl
  · simp [Text.byteLength]

/-- An error with the span of the char at a place. -/
theorem Pointed.charAt {s : Scanner} {offset : Nat} {events : List (Event V)} {e : ParseError}
    (h : s.input.Boundary offset) (ho : e.origin = some (s.input.originOf (s.charSpanAt offset))) :
    Pointed s.input events e := by
  obtain ⟨c, hc, rfl⟩ := h.exists_cursor
  exact .char hc (Scanner.charSpanAt_eq hc ▸ ho)

/-! ## The record -/

/-- Only the terminals touch what the invariant `I` is about. -/
structure Stable (i : Input) (I : State V × List (Event V) → Prop) : Prop where
  /-- It is about the failure record and the history. -/
  state : ∀ {p} (t : State V), I p → t.scanner.farthest = p.1.scanner.farthest →
    t.scanner.expected = p.1.scanner.expected → I (t, p.2)
  skipped : ∀ {p} offset, I p → I (p.1, .skipped offset :: p.2)
  acted : ∀ {p} rule action context m, I p → I (p.1, .acted rule action context m :: p.2)
  called : ∀ {p} rule call context, I p → I (p.1, .called rule call context :: p.2)
  matched : ∀ {p} rule context, I p → I (p.1, .matched rule context :: p.2)
  hit : ∀ {p} terminal n, Sound i p → I p →
    I (p.1, .tried terminal p.1.scanner.offset p.1.scanner.skipping (.hit n) :: p.2)
  miss : ∀ {p} (terminal : Pattern), Sound i p → I p →
    I ({ p.1 with scanner := p.1.scanner.note terminal.describe },
      .tried terminal p.1.scanner.offset p.1.scanner.skipping .miss :: p.2)

/-- The run keeps the invariant, its value satisfies `A`, and an error of it points into the input. -/
def Upholds (i : Input) (I : State V × List (Event V) → Prop) (A : α → Prop) (r : Recorder V α) : Prop :=
  ∀ p, Sound i p → I p → wp r (fun a q => A a ∧ Sound i q ∧ I q) (fun e q => Sound i q ∧ I q ∧ Points i q.2 e) p

/-- The failure record and the place are the same. -/
structure Unnoted (s t : State V) : Prop where
  input : t.scanner.input = s.scanner.input
  cursor : t.scanner.cursor = s.scanner.cursor
  farthest : t.scanner.farthest = s.scanner.farthest
  expected : t.scanner.expected = s.scanner.expected

theorem Unnoted.trans {s t u : State V} (h : Unnoted s t) (h' : Unnoted t u) : Unnoted s u :=
  ⟨h'.input.trans h.input, h'.cursor.trans h.cursor, h'.farthest.trans h.farthest,
    h'.expected.trans h.expected⟩

/-- From `s` the step leaves the place and the record alone, and its errors point into the input. -/
def Unnoting (i : Input) (s : State V) (m : Engine V α) : Prop :=
  ∀ events : List (Event V), wp m (fun _ => Unnoted s) (fun e t => Unnoted s t ∧ Points i events e) s

namespace Unnoting

open Engine

variable {i : Input} {s : State V}

theorem internal {c : Cursor} (hi : s.scanner.input = i) (hs : s.scanner.cursor.In i) (hc : c.In i)
    (hle : c.offset ≤ s.scanner.offset) {cause : Cause} (hcause : cause.expected? = none) :
    Unnoting i s (raiseInternal cause (s.scanner.spanFrom c.offset) : Engine V α) := by
  intro events
  rw [wp_raiseInternal]
  refine ⟨⟨rfl, rfl, rfl, rfl⟩, fun e he => ?_⟩
  cases he
  subst hi
  exact .between hc hs hle hcause rfl

variable (hi : s.scanner.input = i) (hs : s.scanner.cursor.In i)
include hi hs

theorem passArguments (rule : Rule V) (call : Call) : Unnoting i s (Engine.passArguments rule call) := by
  intro events
  unfold Engine.passArguments
  simp only [wp_bind, wp_get]
  cases call.target with
  | none => exact internal hi hs hs (Nat.le_refl _) rfl events
  | some target =>
    dsimp only
    split
    · exact internal hi hs hs (Nat.le_refl _) rfl events
    · exact ⟨rfl, rfl, rfl, rfl⟩

theorem endCall (rules : Array (Rule V)) (rule : Rule V) (call : Call) (target : RuleId) (m : Match) :
    Unnoting i s (Engine.endCall rules rule call target m) := by
  intro events
  unfold Engine.endCall Engine.takeUpValue
  split
  · rw [wp_bind]
    split
    · simp only [wp_bind, wp_get]
      split
      · exact internal hi hs hs (Nat.le_refl _) rfl events
      · exact ⟨rfl, rfl, rfl, rfl⟩
    · exact ⟨rfl, rfl, rfl, rfl⟩
  · exact ⟨rfl, rfl, rfl, rfl⟩

theorem enter (rule : Rule V) : Unnoting i s (Engine.enter rule) := by
  intro events
  unfold Engine.enter
  simp only [wp_bind, wp_get]
  split
  · exact internal hi hs hs (Nat.le_refl _) rfl events
  · obtain ⟨_, he⟩ := s.scanner.enterRule_eq rule.qualifiedName
    simp only [wp_bind, wp_setStack, wp_setContext, wp_onScanner, he]
    exact ⟨rfl, rfl, rfl, rfl⟩

theorem pushValue (rule : Rule V) {c : Cursor} (hc : c.In i) (hle : c.offset ≤ s.scanner.offset) :
    Unnoting i s (Engine.pushValue rule c) := by
  intro events
  unfold Engine.pushValue
  split
  · simp only [wp_bind, wp_get]
    split
    · exact ⟨rfl, rfl, rfl, rfl⟩
    · exact internal hi hs hc hle rfl events
  · exact ⟨rfl, rfl, rfl, rfl⟩

/-- A rule is left with the outcome of its definition, whose errors point into the input. -/
theorem leave (rule : Rule V) {before : State V} {outcome : Except Stop Match}
    (hc : before.scanner.cursor.In i)
    (hle : ∀ n, outcome = .ok (.hit n) → before.scanner.offset ≤ s.scanner.offset) {events : List (Event V)}
    (hstop : ∀ e, outcome = .error e → Points i events e) :
    wp (Engine.leave rule before outcome) (fun _ => Unnoted s) (fun e t => Unnoted s t ∧ Points i events e) s := by
  unfold Engine.leave
  simp only [wp_bind, wp_onScanner]
  have hl : ∀ matched, Unnoted s
      { s with scanner := s.scanner.leaveRule rule.qualifiedName before.scanner.cursor matched } := by
    intro matched
    obtain ⟨_, hl⟩ := s.scanner.leaveRule_eq rule.qualifiedName before.scanner.cursor matched
    rw [hl]
    exact ⟨rfl, rfl, rfl, rfl⟩
  rcases outcome with e | n | _
  · exact ⟨hl _, hstop e rfl⟩
  · have hpush := pushValue (s := { s with
      scanner := s.scanner.leaveRule rule.qualifiedName before.scanner.cursor true })
      ((hl true).input.trans hi) ((hl true).cursor ▸ hs) rule hc
      (Nat.le_trans (hle n rfl) (Nat.le_of_eq (congrArg Cursor.offset (hl true).cursor).symm)) events
    refine (wp_bind _ _).2 (wp_mono hpush (fun _ t ht => ?_) fun e t ht => ?_)
    · exact ((hl true).trans ht).trans ⟨rfl, rfl, rfl, rfl⟩
    · exact ⟨(hl true).trans ht.1, ht.2⟩
  · exact (hl _).trans ⟨rfl, rfl, rfl, rfl⟩

end Unnoting

/-! ## Terminals -/

/-- A terminal moves on, or it makes a note and stays. -/
def Notes (p : Pattern) (m : Engine V Match) : Prop :=
  ∀ s, wp m (fun a t => match a with
    | .hit _ => t.scanner.farthest = s.scanner.farthest ∧ t.scanner.expected = s.scanner.expected
    | .miss => t = { s with scanner := s.scanner.note p.describe }) (fun _ _ => False) s

namespace Notes

open Engine

theorem missed (p : Pattern) : Notes p (Engine.missed p.describe : Engine V Match) := fun _ => rfl

theorem matchOne (kind : CharKind) : Notes (.one kind) (Engine.matchOne kind : Engine V Match) := by
  intro s
  unfold Engine.matchOne
  simp only [wp_bind, wp_here]
  split
  · split
    · exact ⟨rfl, rfl⟩
    · exact missed _ s
  · exact missed _ s

theorem matchText (literal : String) : Notes (.text literal) (Engine.matchText literal : Engine V Match) := by
  intro s
  unfold Engine.matchText
  simp only [wp_bind, wp_here]
  split
  · exact ⟨rfl, rfl⟩
  · exact missed _ s

theorem matchKeyword (word : String) : Notes (.keyword word) (Engine.matchKeyword word : Engine V Match) := by
  intro s
  unfold Engine.matchKeyword
  simp only [wp_bind, wp_here]
  split
  · split
    · exact missed _ s
    · exact ⟨rfl, rfl⟩
  · exact missed _ s

end Notes

/-! ## Steps -/

namespace Upholds

open Recorder

variable {i : Input} {I : State V × List (Event V) → Prop} {A : α → Prop} {B : β → Prop}

theorem pure {a : α} (ha : A a) : Upholds i I A (pure a : Recorder V α) := fun _ hs hI => ⟨ha, hs, hI⟩

theorem exhausted : Upholds i I A (throw .exhausted : Recorder V α) := fun _ hs hI => ⟨hs, hI, nofun⟩

theorem bind {r : Recorder V α} {f : α → Recorder V β} (hr : Upholds i I A r)
    (hf : ∀ a, A a → Upholds i I B (f a)) : Upholds i I B (r >>= f) :=
  fun p hs hI => wp_then (hr p hs hI) fun a q hq => hf a hq.1 q hq.2.1 hq.2.2

theorem here : Upholds i I (·.In i) (lift Engine.here : Recorder V Cursor) :=
  fun _ hs hI => ⟨hs.cursor, hs, hI⟩

theorem hitFrom (start : Cursor) : Upholds i I (fun _ => True) (lift (Engine.hitFrom start) : Recorder V Match) :=
  fun _ hs hI => ⟨trivial, hs, hI⟩

variable (hst : Stable i I)
include hst

theorem moveTo {c : Cursor} (hc : c.In i) : Upholds i I (fun _ => True) (lift (Engine.moveTo c)) :=
  fun _ hs hI => ⟨trivial, hs.moveTo hc, hst.state _ hI rfl rfl⟩

/-- A step that leaves the place and the record alone. -/
theorem unnoting {m : Engine V α} (hm : ∀ s, s.scanner.input = i → s.scanner.cursor.In i → Unnoting i s m) :
    Upholds i I (fun _ => True) (lift m) := by
  intro p hs hI
  rw [wp_lift]
  refine wp_mono (hm p.1 hs.input hs.cursor p.2) (fun _ t ht => ?_) fun _ t ht => ?_
  · exact ⟨trivial, hs.state t ht.input ht.cursor, hst.state t hI ht.farthest ht.expected⟩
  · exact ⟨hs.state t ht.1.input ht.1.cursor, hst.state t hI ht.1.farthest ht.1.expected, ht.2⟩

theorem terminal {p : Pattern} {m : Engine V Match} (hm : PlacedMatch m) (hn : Notes p m) :
    Upholds i I (fun _ => True) (Recorder.terminal p m) := by
  intro q hs hI
  have hsound := Disciplined.terminal (p := p) hm i q hs
  unfold Recorder.terminal at hsound ⊢
  simp only [wp_bind, wp_state, wp_lift, wp_record, wp_pure] at hsound ⊢
  refine wp_mono (wp_and hsound (hn q.1)) (fun a t h => ?_) fun _ _ h => h.2.elim
  cases a with
  | hit n => exact ⟨trivial, h.1.1, hst.state t (hst.hit p n hs hI) h.2.1 h.2.2⟩
  | miss => exact ⟨trivial, h.1.1, h.2 ▸ hst.miss p hs hI⟩

/-! ## Skipping and repetition -/

section
variable {invoke : RuleId → Recorder V Match} (hk : ∀ id, Upholds i I (fun _ => True) (invoke id))
include hk

theorem skip : Upholds i I (fun _ => True) (Recorder.skip invoke) := by
  intro p hs hI
  unfold Recorder.skip
  simp only [wp_bind, wp_state]
  split
  · exact ⟨trivial, hs, hI⟩
  · next id _ =>
    split
    · simp only [wp_bind, wp_record, wp_attempt, wp_bracket]
      have hr : Sound i (p.1, .skipped p.1.scanner.offset :: p.2) := hs.record hs.offset
      have hrI := hst.skipped p.1.scanner.offset hI
      refine wp_mono (hk id _ (hr.state _ rfl rfl) (hst.state _ hrI rfl rfl)) (fun m q hq => ?_) fun e q hq => ?_
      · rw [wp_lift]
        cases m with
        | miss => exact ⟨trivial, ⟨hq.2.1.input, hs.cursor, hq.2.1.events⟩, hst.state (p := q) _ hq.2.2 rfl rfl⟩
        | hit n => exact ⟨trivial, hq.2.1.state _ rfl rfl, hst.state (p := q) _ hq.2.2 rfl rfl⟩
      · exact ⟨hq.1.state _ rfl rfl, hst.state _ hq.2.1 rfl rfl, hq.2.2⟩
    · exact ⟨trivial, hs, hI⟩

omit hk

theorem repeatBody {skip : Recorder V Unit} {body : Recorder V Match} (hskip : Upholds i I (fun _ => True) skip)
    (hb : Upholds i I (fun _ => True) body) (fuel : Nat) (first : Bool) :
    Upholds i I (fun _ => True) (Recorder.repeatBody skip body fuel first) := by
  induction fuel generalizing first with
  | zero => exact exhausted
  | succ fuel ih =>
    -- One round that goes back to `c` on a miss.
    have round : ∀ {c : Cursor} {next : Match → Recorder V Unit}, c.In i → next .miss = lift (Engine.moveTo c) →
        (∀ n, next (.hit n) = Recorder.repeatBody skip body fuel false) →
        Upholds i I (fun _ => True) (body >>= next) := by
      intro c next hc hmiss hhit
      refine bind hb fun m _ => ?_
      cases m with
      | miss => exact hmiss ▸ moveTo hst hc
      | hit n => exact hhit n ▸ ih false
    intro p hs hI
    unfold Recorder.repeatBody
    rw [wp_bind, wp_state]
    dsimp only
    split
    · exact ⟨trivial, hs, hI⟩
    cases first with
    | true => exact round hs.cursor rfl (fun _ => rfl) p hs hI
    | false => exact bind hskip (fun _ _ => round hs.cursor rfl fun _ => rfl) p hs hI

theorem repeatItems {skip : Recorder V Unit} {separator item : Recorder V Match}
    (hskip : Upholds i I (fun _ => True) skip) (hp : Upholds i I (fun _ => True) separator)
    (hi : Upholds i I (fun _ => True) item) (fuel : Nat) :
    Upholds i I (fun _ => True) (Recorder.repeatItems skip separator item fuel) := by
  induction fuel with
  | zero => exact exhausted
  | succ fuel ih =>
    refine bind here fun save hsave => bind hskip fun _ _ => bind hp fun m _ => ?_
    cases m with
    | miss => exact moveTo hst hsave
    | hit n =>
      refine bind hskip fun _ _ => bind hi fun m _ => ?_
      cases m with
      | miss => exact moveTo hst hsave
      | hit n => exact ih

/-! ## Actions, calls and patterns -/

/-- An action fails on the span of the match it saw. -/
theorem runAction (rule : Rule V) (action : String) {c : Cursor} {n : Nat} {p : State V × List (Event V)}
    (hc : c.In i) (hend : Ended i c (.hit n) p) (hI : I p) :
    wp (Recorder.runAction rule action c n) (fun _ q => True ∧ Sound i q ∧ I q)
      (fun e q => Sound i q ∧ I q ∧ Points i q.2 e) p := by
  have hle : c.offset ≤ p.1.scanner.offset := hend.ahead.2
  have hsound := Disciplined.runAction rule action hc hend
  unfold Recorder.runAction at hsound ⊢
  simp only [wp_bind, wp_state, wp_record, wp_lift] at hsound ⊢
  have hr := hst.acted rule action p.1.context (Engine.matchedSince c p.1.scanner) hI
  have hsame : wp (Engine.runAction rule action c n)
      (fun _ t => t.scanner.farthest = p.1.scanner.farthest ∧ t.scanner.expected = p.1.scanner.expected)
      (fun e t => (t.scanner.farthest = p.1.scanner.farthest ∧ t.scanner.expected = p.1.scanner.expected) ∧
        Points i (.acted rule action p.1.context (Engine.matchedSince c p.1.scanner) :: p.2) e) p.1 := by
    unfold Engine.runAction
    rw [wp_bind, wp_get]
    dsimp only
    cases hf : rule.action? action with
    | none =>
      refine ⟨⟨rfl, rfl⟩, fun e he => ?_⟩
      cases he
      obtain rfl := hend.1.input
      exact .between hc hend.1.cursor hle rfl rfl
    | some f =>
      dsimp only
      rcases hv : f p.1.context (Engine.matchedSince c p.1.scanner) with ⟨verdict, context⟩
      cases verdict with
      | pass => exact ⟨rfl, rfl⟩
      | reject => exact ⟨rfl, rfl⟩
      | fail cause =>
        refine ⟨⟨rfl, rfl⟩, fun e he => ?_⟩
        cases he
        obtain rfl := hend.1.input
        exact .action List.mem_cons_self hf (by rw [hv]; rfl) rfl rfl
  refine wp_mono (wp_and (wp_mono hsound (fun _ _ h => h.1) fun _ _ h => h) hsame)
    (fun _ t h => ⟨trivial, h.1, hst.state t hr h.2.1 h.2.2⟩)
    fun _ t h => ⟨h.1, hst.state t hr h.2.1.1 h.2.1.2, h.2.2⟩

include hk

theorem performCall (rules : Array (Rule V)) (rule : Rule V) (call : Call) :
    Upholds i I (fun _ => True) (Recorder.performCall rules invoke rule call) := by
  intro p hs hI
  unfold Recorder.performCall
  simp only [wp_bind, wp_state, wp_record]
  have hr : Sound i (p.1, .called rule call p.1.context :: p.2) := hs.record trivial
  have hrest : Upholds i I (fun _ => True) (do
      let target ← lift (Engine.passArguments rule call)
      let m ← invoke target
      lift (Engine.endCall rules rule call target m)) :=
    bind (unnoting hst fun s hi hs => .passArguments hi hs rule call) fun target _ =>
      bind (hk target) fun m _ => unnoting hst fun s hi hs => .endCall hi hs rules rule call target m
  have := hrest _ hr (hst.called rule call p.1.context hI)
  simpa only [wp_bind] using this

theorem run (hd : ∀ id, Disciplined (invoke id)) (rules : Array (Rule V)) (fuel : Nat) (rule : Rule V)
    (p : Pattern) : Upholds i I (fun _ => True) (p.record rules fuel invoke rule) := by
  have hskip := skip hst hk
  induction p with
  | empty => exact pure trivial
  | one kind => exact terminal hst (.matchOne kind) (.matchOne kind)
  | text literal => exact terminal hst (.matchText literal) (.matchText literal)
  | keyword word => exact terminal hst (.matchKeyword word) (.matchKeyword word)
  | keywords selector words ih =>
    refine bind here fun start hstart => bind ih fun m _ => bind here fun stop _ => ?_
    split
    · exact pure trivial
    · exact bind (moveTo hst hstart) fun _ _ => terminal hst (.missed _) (.missed _)
  | seq first second ih₁ ih₂ =>
    refine bind here fun start hstart => bind ih₁ fun m _ => ?_
    cases m with
    | miss => exact pure trivial
    | hit n =>
      refine bind here fun middle hmiddle => bind hskip fun _ _ => bind ih₂ fun m _ => ?_
      rcases m with (_ | n) | _
      · exact bind (moveTo hst hmiddle) fun _ _ => hitFrom start
      · exact hitFrom start
      · exact bind (moveTo hst hstart) fun _ _ => pure trivial
  | alt first second ih₁ ih₂ =>
    refine bind here fun start hstart => bind ih₁ fun m _ => ?_
    cases m with
    | hit n => exact pure trivial
    | miss => exact bind (moveTo hst hstart) fun _ _ => ih₂
  | diff subject excluded ih₁ ih₂ =>
    refine bind here fun start hstart => bind ih₁ fun m _ => ?_
    cases m with
    | miss => exact bind (moveTo hst hstart) fun _ _ => pure trivial
    | hit n =>
      refine bind here fun after hafter => bind (moveTo hst hstart) fun _ _ => bind ih₂ fun m _ => ?_
      split
      · exact bind (moveTo hst hstart) fun _ _ => pure trivial
      · exact bind (moveTo hst hafter) fun _ _ => pure trivial
  | list item separator ih₁ ih₂ =>
    refine bind here fun start _ => bind ih₁ fun m _ => ?_
    cases m with
    | miss => exact pure trivial
    | hit n => exact bind (repeatItems hst hskip ih₂ ih₁ fuel) fun _ _ => hitFrom start
  | opt subject ih =>
    refine bind here fun start hstart => bind ih fun m _ => ?_
    cases m with
    | hit n => exact pure trivial
    | miss => exact bind (moveTo hst hstart) fun _ _ => pure trivial
  | many subject ih =>
    exact bind here fun start _ => bind (repeatBody hst hskip ih fuel true) fun _ _ => hitFrom start
  | many1 subject ih =>
    refine bind here fun start _ => bind ih fun m _ => ?_
    cases m with
    | miss => exact pure trivial
    | hit n => exact bind (repeatBody hst hskip ih fuel false) fun _ _ => hitFrom start
  | expect subject ih =>
    refine bind ih fun m _ => ?_
    cases m with
    | hit n => exact pure trivial
    | miss =>
      intro p hs hI
      rw [wp_bind, wp_state]
      refine ⟨hs, hI, fun e he => ?_⟩
      cases he
      obtain rfl := hs.input
      exact .charAt hs.offset rfl
  | token subject ih =>
    intro p hs hI
    simp only [Pattern.record, wp_bracket]
    refine wp_mono (ih _ (hs.state _ rfl rfl) (hst.state _ hI rfl rfl)) (fun m q hq => ?_) fun _ q hq => ?_
    · exact ⟨trivial, hq.2.1.state _ rfl rfl, hst.state _ hq.2.2 rfl rfl⟩
    · exact ⟨hq.1.state _ rfl rfl, hst.state _ hq.2.1 rfl rfl, hq.2.2⟩
  | lookahead subject ih =>
    exact bind here fun start hstart => bind ih fun m _ => bind (moveTo hst hstart) fun _ _ => pure trivial
  | notAhead subject ih =>
    exact bind here fun start hstart => bind ih fun m _ => bind (moveTo hst hstart) fun _ _ => pure trivial
  | act action subject ih =>
    intro p hs hI
    simp only [Pattern.record, wp_bind, wp_lift, Engine.wp_here]
    -- The action needs to know where its subject began.
    refine wp_mono (wp_and (Disciplined.run rules fuel hd rule subject i p hs) (ih p hs hI)) (fun m q h => ?_)
      fun _ _ h => h.2
    cases m with
    | miss => exact h.2
    | hit n => exact runAction hst rule action hs.cursor h.1 h.2.2.2
  | call c => exact performCall hst hk rules rule c

end

theorem matchRule (rule : Rule V) {body : Recorder V Match} (hd : Disciplined body)
    (hb : Upholds i I (fun _ => True) body) : Upholds i I (fun _ => True) (Recorder.matchRule rule body) := by
  intro p hs hI
  unfold Recorder.matchRule
  simp only [wp_bind, wp_state, wp_attempt]
  have henter := wp_and ((Still.enter rule).sound hs) (unnoting hst (fun s hi hs => .enter hi hs rule) p hs hI)
  refine wp_mono henter (fun _ q hq => ?_) fun _ _ hq => hq.2
  obtain ⟨⟨-, hqs, hqc⟩, -, -, hqI⟩ := hq
  -- Leaving does not move, and the definition went on from where the rule was entered.
  have leaves : ∀ (outcome : Except Stop Match) t, Sound i t → I t →
      (∀ n, outcome = .ok (.hit n) → p.1.scanner.offset ≤ t.1.scanner.offset) →
      (∀ e, outcome = .error e → Points i t.2 e) →
      wp (lift (Engine.leave rule p.1 outcome)) (fun _ q => True ∧ Sound i q ∧ I q)
        (fun e q => Sound i q ∧ I q ∧ Points i q.2 e) t := by
    intro outcome t hts htI hle hstop
    rw [wp_lift]
    refine wp_mono (Unnoting.leave hts.input hts.cursor rule hs.cursor hle hstop) (fun _ u hu => ?_) fun _ u hu => ?_
    · exact ⟨trivial, hts.state u hu.input hu.cursor, hst.state u htI hu.farthest hu.expected⟩
    · exact ⟨hts.state u hu.1.input hu.1.cursor, hst.state u htI hu.1.farthest hu.1.expected, hu.2⟩
  refine wp_mono (wp_and (hd i q hqs) (hb q hqs hqI)) (fun m t ht => ?_) fun e t ht => ?_
  · obtain ⟨hend, -, hts, htI⟩ := ht
    rw [hqc] at hend
    cases m with
    | miss => exact leaves _ t hts htI nofun nofun
    | hit n =>
      have hr : Sound i (t.1, .matched rule t.1.context :: t.2) := hts.record trivial
      exact leaves _ _ hr (hst.matched rule t.1.context htI) (fun _ _ => hend.ahead.2) nofun
  · refine leaves _ t ht.2.1 ht.2.2.1 nofun fun e' he => ?_
    cases he
    exact ht.2.2.2

theorem invoke (rules : Array (Rule V)) (fuel : Nat) (id : RuleId) :
    Upholds i I (fun _ => True) (Recorder.invoke rules fuel id) := by
  induction fuel generalizing id with
  | zero => exact exhausted
  | succ fuel ih =>
    unfold Recorder.invoke
    cases rules[id]? with
    | none => exact exhausted
    | some rule =>
      have hd := Disciplined.invoke rules fuel
      exact matchRule hst rule (.run rules fuel hd rule _) (run hst ih hd rules fuel rule _)

theorem matchStart {invoke : RuleId → Recorder V Match} (hk : ∀ id, Upholds i I (fun _ => True) (invoke id))
    (id : RuleId) : Upholds i I (fun _ => True) (Recorder.matchStart invoke id) := by
  refine bind (skip hst hk) fun _ _ => bind (hk id) fun m _ => ?_
  cases m with
  | miss => exact pure trivial
  | hit n => exact bind (skip hst hk) fun _ _ => pure trivial

end Upholds

end PegFront
