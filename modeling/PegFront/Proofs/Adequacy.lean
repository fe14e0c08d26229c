import PegFront.Proofs.Balance
import PegFront.Proofs.Derivation
import PegFront.Proofs.Progress

/-!
# Derivations and runs

The engine does what derivations say. Every run, from a state that stands at the place and in the context of
a job, ends as a derivation says or uses up its fuel. There is one lemma for each operation of the engine; the
stack comes in only where a rule takes its arguments and leaves its value. Since a job ends in one way, and a
parse that is grounded has fuel enough, a parse has a value exactly if there is a derivation that takes up all
of the text (`parseIn_eq_ok_iff`).
-/

namespace PegFront

variable {V : Type}

/-- The rule that may be skipped with here. -/
def Scanner.skipsWith (s : Scanner) : Option RuleId := if s.canSkip then s.skipRule else none

/-- The state stands at a place in a context. -/
structure At (w : World V) (skip : Option RuleId) (ctx : Context V) (c : Cursor) (s : State V) : Prop where
  cursor : s.scanner.cursor = c
  place : c.In s.scanner.input
  context : s.context = ctx
  skips : s.scanner.skipsWith = skip
  file : s.scanner.input.file = w.file
  fileIndex : s.scanner.input.fileIndex = w.fileIndex

/-- The scanner reads the same input and skips as before. -/
structure Steady (s t : State V) : Prop where
  input : t.scanner.input = s.scanner.input
  skipRule : t.scanner.skipRule = s.scanner.skipRule
  tokenDepth : t.scanner.tokenDepth = s.scanner.tokenDepth
  skipping : t.scanner.skipping = s.scanner.skipping

namespace Steady

variable {s t u : State V}

theorem rfl : Steady s s := ⟨Eq.refl _, Eq.refl _, Eq.refl _, Eq.refl _⟩

theorem trans (h : Steady s t) (h' : Steady t u) : Steady s u :=
  ⟨h'.input.trans h.input, h'.skipRule.trans h.skipRule, h'.tokenDepth.trans h.tokenDepth,
    h'.skipping.trans h.skipping⟩

theorem skipsWith (h : Steady s t) : t.scanner.skipsWith = s.scanner.skipsWith := by
  unfold Scanner.skipsWith Scanner.canSkip
  rw [h.skipRule, h.tokenDepth, h.skipping]

end Steady

namespace At

variable {w : World V} {skip : Option RuleId} {ctx ctx' : Context V} {c d : Cursor} {s t : State V}

theorem offset (h : At w skip ctx c s) : s.scanner.offset = c.offset := congrArg Cursor.offset h.cursor

/-- Another place of the same input. -/
theorem move (h : At w skip ctx c s) (ht : Steady s t) (hd : d.In s.scanner.input)
    (hcursor : t.scanner.cursor = d) (hcontext : t.context = ctx') : At w skip ctx' d t where
  cursor := hcursor
  place := ht.input ▸ hd
  context := hcontext
  skips := ht.skipsWith.trans h.skips
  file := ht.input ▸ h.file
  fileIndex := ht.input ▸ h.fileIndex

theorem atEnd (h : At w skip ctx c s) : s.scanner.atEnd = true ↔ c.rest = [] := by
  have hstop := h.place.offset_add
  rw [Scanner.atEnd, decide_eq_true_iff, h.offset]
  constructor
  · intro hle
    exact Text.eq_nil_of_byteLength (by omega)
  · intro hc
    rw [hc] at hstop
    simp only [Text.byteLength] at hstop
    omega

theorem matchedSince (hd : At w skip ctx d s) (c : Cursor) :
    Engine.matchedSince c s.scanner = w.matched c d := by
  unfold Engine.matchedSince World.matched Scanner.spanFrom
  rw [hd.offset, hd.file, hd.fileIndex]

end At

/-- The state `t` stands at `d`, on from `s`, with the stack of `s`. -/
structure Reaches (w : World V) (skip : Option RuleId) (s : State V) (ctx : Context V) (d : Cursor)
    (t : State V) : Prop extends At w skip ctx d t, Steady s t where
  le : s.scanner.offset ≤ d.offset
  stack : t.stack = s.stack

/-- A match from `s` ended in `t` as the answer says. -/
def Answer.Meets (w : World V) (skip : Option RuleId) (s : State V) : Answer V → Match → State V → Prop
  | .hit ctx d, m, t => m = .hit (d.offset - s.scanner.offset) ∧ Reaches w skip s ctx d t
  | .miss ctx, m, t => m = .miss ∧ Reaches w skip s ctx s.scanner.cursor t
  | .stop, _, _ => False

/-- What a rule leaves on the stack. -/
def Rule.results (rule : Rule V) (ctx : Context V) : List V :=
  if rule.hasValue then ctx.value.toList else []

/-- A rule that found its arguments above `below` ended in `t` as the answer says, back in the context of its
caller. -/
def Answer.Leaves (w : World V) (skip : Option RuleId) (rule : Rule V) (below : Stack V) (s : State V) :
    Answer V → Match → State V → Prop
  | .hit ctx d, m, t => m = .hit (d.offset - s.scanner.offset) ∧ s.scanner.offset ≤ d.offset ∧
      (rule.hasValue = true → ctx.value.isSome = true) ∧ At w skip s.context d t ∧ Steady s t ∧
      t.stack = below.pushAll (rule.results ctx)
  | .miss _, m, t => m = .miss ∧ At w skip s.context s.scanner.cursor t ∧ Steady s t ∧ t.stack = below
  | .stop, _, _ => False

/-- A run stops because its fuel is used up, or because the job fails the parse. -/
def Stops (w : World V) (skip : Option RuleId) (job : Job V) (c : Cursor) (e : Stop) (_ : State V) : Prop :=
  e = .exhausted ∨ Derives w skip job c .stop

/-- The run of a job, from a state that stands at `c`, ends as a derivation says. -/
def Follows (w : World V) (skip : Option RuleId) (job : Job V) (c : Cursor) (m : Engine V Match) (s : State V) :
    Prop :=
  wp m (fun a t => ∃ r, Derives w skip job c r ∧ r.Meets w skip s a t) (Stops w skip job c) s

/-- The same for a job that never misses. -/
def Continues (w : World V) (skip : Option RuleId) (job : Job V) (c : Cursor) (m : Engine V Unit) (s : State V) :
    Prop :=
  wp m (fun _ t => ∃ ctx d, Derives w skip job c (.hit ctx d) ∧ Reaches w skip s ctx d t) (Stops w skip job c) s

/-! ## Steps -/

section
variable {w : World V} {skip : Option RuleId} {ctx ctx' : Context V} {c d : Cursor} {s t u : State V}
  {job job' : Job V} {α : Type}

theorem Reaches.rfl (h : At w skip ctx c s) : Reaches w skip s ctx c s :=
  ⟨h, .rfl, Nat.le_of_eq h.offset, Eq.refl _⟩

theorem Reaches.trans (h : Reaches w skip s ctx c t) (h' : Reaches w skip t ctx' d u) :
    Reaches w skip s ctx' d u :=
  ⟨h'.toAt, h.toSteady.trans h'.toSteady, by have := h.le; have := h'.le; have := h.offset; omega,
    h'.stack.trans h.stack⟩

/-- Back at the place where the run began. -/
theorem Reaches.back (h : Reaches w skip s ctx' d t) (hs : At w skip ctx c s) :
    Reaches w skip s ctx' c { t with scanner := t.scanner.moveTo c } := by
  have ht : Steady s { t with scanner := t.scanner.moveTo c } :=
    ⟨h.input, h.skipRule, h.tokenDepth, h.skipping⟩
  exact ⟨hs.move ht hs.place (Eq.refl _) h.context, ht, Nat.le_of_eq hs.offset, h.stack⟩

/-- Back at a place that was reached before. -/
theorem Reaches.moveTo (h : Reaches w skip s ctx c t) (h' : Reaches w skip t ctx' d u) :
    Reaches w skip s ctx' c { u with scanner := u.scanner.moveTo c } :=
  h.trans (h'.back h.toAt)

/-- The length of a hit that ends at the place reached. -/
theorem Reaches.hitFrom (h : Reaches w skip s ctx d t) (hs : At w skip ctx' c s) :
    (Answer.hit ctx d).Meets w skip s (.hit (t.scanner.offset - c.offset)) t := by
  rw [h.offset, ← hs.offset]
  exact ⟨Eq.refl _, h⟩

theorem Reaches.missed (h : Reaches w skip s ctx c t) (hs : At w skip ctx' c s) :
    (Answer.miss ctx).Meets w skip s .miss t := ⟨Eq.refl _, hs.cursor.symm ▸ h⟩

theorem reaches_note (hs : At w skip ctx c s) (what : String) :
    Reaches w skip s ctx c { s with scanner := s.scanner.note what } := by
  obtain ⟨farthest, expected, hn⟩ := s.scanner.note_eq what
  rw [hn]
  have ht : Steady s { s with scanner := { s.scanner with farthest, expected } } :=
    ⟨Eq.refl _, Eq.refl _, Eq.refl _, Eq.refl _⟩
  exact ⟨hs.move ht hs.place hs.cursor hs.context, ht, Nat.le_of_eq hs.offset, Eq.refl _⟩

/-- A terminal that misses. -/
theorem follows_missed (hs : At w skip ctx c s) (what : String) (h : Derives w skip job c (.miss ctx)) :
    Follows w skip job c (Engine.missed what) s :=
  (Engine.wp_missed what).2 ⟨_, h, (reaches_note hs what).missed hs⟩

/-- A terminal that goes on to a later place. -/
theorem follows_moved (hs : At w skip ctx c s) (hd : d.In s.scanner.input) {n : Nat}
    (hn : d.offset = c.offset + n) (h : Derives w skip job c (.hit ctx d)) :
    Follows w skip job c (do Engine.moveTo d; return .hit n) s := by
  have ht : Steady s { s with scanner := s.scanner.moveTo d } :=
    ⟨Eq.refl _, Eq.refl _, Eq.refl _, Eq.refl _⟩
  have ho := hs.offset
  refine (wp_bind _ _).2 ⟨_, h, ?_, hs.move ht hd (Eq.refl _) hs.context, ht, by omega, Eq.refl _⟩
  rw [ho, hn, Nat.add_sub_cancel_left]

/-- What a run does after a part of it: nothing if that part stops. -/
theorem Follows.bind {f : Match → Engine V α} {Q : α → State V → Prop} {m : Engine V Match}
    (h : Follows w skip job c m s) (hs : At w skip ctx c s)
    (hstop : Derives w skip job c .stop → Derives w skip job' d .stop)
    (hhit : ∀ ctx' e t, Derives w skip job c (.hit ctx' e) → Reaches w skip s ctx' e t →
      wp (f (.hit (e.offset - c.offset))) Q (Stops w skip job' d) t)
    (hmiss : ∀ ctx' t, Derives w skip job c (.miss ctx') → Reaches w skip s ctx' c t →
      wp (f .miss) Q (Stops w skip job' d) t) :
    wp (m >>= f) Q (Stops w skip job' d) s := by
  refine (wp_bind _ _).2 (wp_mono h ?_ fun e t he => he.imp_right hstop)
  rintro a t ⟨r, hr, hm⟩
  cases r with
  | hit ctx' e =>
    obtain ⟨rfl, ht⟩ := hm
    rw [hs.offset]
    exact hhit ctx' e t hr ht
  | miss ctx' =>
    obtain ⟨rfl, ht⟩ := hm
    exact hmiss ctx' t hr (hs.cursor ▸ ht)
  | stop => exact hm.elim

theorem Continues.bind {f : Unit → Engine V α} {Q : α → State V → Prop} {m : Engine V Unit}
    {skip' : Option RuleId} (h : Continues w skip job c m s)
    (hstop : Derives w skip job c .stop → Derives w skip' job' d .stop)
    (hhit : ∀ ctx' e t, Derives w skip job c (.hit ctx' e) → Reaches w skip s ctx' e t →
      wp (f ()) Q (Stops w skip' job' d) t) :
    wp (m >>= f) Q (Stops w skip' job' d) s := by
  refine (wp_bind _ _).2 (wp_mono h ?_ fun e t he => he.imp_right hstop)
  rintro a t ⟨ctx', e, hr, ht⟩
  exact hhit ctx' e t hr ht

end

/-! ## Terminals -/

section
variable {w : World V} {skip : Option RuleId} {ctx : Context V} {c : Cursor} {s : State V} {rule : Rule V}

open Engine

theorem follows_matchOne (hs : At w skip ctx c s) (kind : CharKind) :
    Follows w skip (.pattern rule (.one kind) ctx) c (matchOne kind) s := by
  unfold matchOne Follows
  rw [wp_bind, wp_here, hs.cursor]
  cases hn : c.next? with
  | none => exact follows_missed hs _ (.one_miss fun _ _ h => nomatch hn.symm.trans h)
  | some p =>
    obtain ⟨ch, d⟩ := p
    obtain ⟨hd, ho⟩ := hs.place.next hn
    dsimp only
    split
    · next ha => exact follows_moved hs hd ho (.one_hit hn ha)
    · next ha =>
      refine follows_missed hs _ (.one_miss fun ch' d' h => ?_)
      cases hn.symm.trans h
      exact Bool.eq_false_iff.2 ha

theorem follows_matchText (hs : At w skip ctx c s) (literal : String) :
    Follows w skip (.pattern rule (.text literal) ctx) c (matchText literal) s := by
  unfold matchText Follows
  rw [wp_bind, wp_here, hs.cursor]
  cases hn : c.after? literal.toList with
  | none => exact follows_missed hs _ (.text_miss hn)
  | some d =>
    obtain ⟨hd, ho⟩ := hs.place.after hn
    exact follows_moved hs hd (Text.byteLength_toList literal ▸ ho) (.text_hit hn)

theorem follows_matchKeyword (hs : At w skip ctx c s) (word : String) :
    Follows w skip (.pattern rule (.keyword word) ctx) c (matchKeyword word) s := by
  unfold matchKeyword Follows
  rw [wp_bind, wp_here, hs.cursor]
  cases hn : c.after? word.toList with
  | none => exact follows_missed hs _ (.keyword_miss fun _ h => nomatch hn.symm.trans h)
  | some d =>
    obtain ⟨hd, ho⟩ := hs.place.after hn
    dsimp only
    split
    · next ha =>
      refine follows_missed hs _ (.keyword_miss fun d' h => ?_)
      cases hn.symm.trans h
      exact ha
    · next ha =>
      exact follows_moved hs hd (Text.byteLength_toList word ▸ ho) (.keyword_hit hn (Bool.eq_false_iff.2 ha))

end

/-! ## Skipping and repetition -/

/-- The rule to skip with is a rule of the table and takes no arguments. -/
def World.CanSkip (w : World V) (skip : Option RuleId) : Prop :=
  ∀ id, skip = some id → ∃ rule, w.rules[id]? = some rule ∧ rule.arity = 0

theorem World.canSkip_none (w : World V) : w.CanSkip none := nofun

/-- The invocations of rules end as derivations say. -/
def InvokesAs (w : World V) (invoke : RuleId → Engine V Match) : Prop :=
  ∀ {skip id rule c s} (args below), w.CanSkip skip → w.rules[id]? = some rule → args.length = rule.arity →
    At w skip s.context c s → s.stack = below.pushAll args →
    wp (invoke id) (fun m t => ∃ r, Derives w skip (.rule id args) c r ∧ r.Leaves w skip rule below s m t)
      (Stops w skip (.rule id args) c) s

section
variable {w : World V} {skip : Option RuleId} {ctx : Context V} {c : Cursor} {s : State V} {rule : Rule V}
  {invoke : RuleId → Engine V Match}

theorem Stack.truncate_pushAll (s : Stack V) (vs : List V) : (s.pushAll vs).truncate s.size = s := by
  simp [truncate, pushAll, size]

theorem Scanner.skipsWith_eq_some {s : Scanner} {id : RuleId} (h : s.skipsWith = some id) :
    s.skipRule = some id ∧ s.canSkip = true ∧ s.skipping = false := by
  unfold skipsWith at h
  split at h
  · next hc => exact ⟨h, hc, by simpa [canSkip] using (Bool.and_eq_true_iff.1 (Bool.and_eq_true_iff.1 hc).1).2⟩
  · cases h

/-- Nothing is skipped in the skip rule. -/
theorem At.setSkipping (h : At w skip ctx c s) :
    At w none ctx c { s with scanner := s.scanner.setSkipping true } :=
  ⟨h.cursor, h.place, h.context, by simp [Scanner.skipsWith, Scanner.canSkip, Scanner.setSkipping], h.file,
    h.fileIndex⟩

/-- Nothing may be skipped where no rule is skipped with. -/
theorem At.canSkip (h : At w none ctx c s) : s.scanner.canSkip = false := by
  have hskips := h.skips
  unfold Scanner.skipsWith at hskips
  by_contra hcan
  rw [Bool.not_eq_false] at hcan
  rw [if_pos hcan] at hskips
  rw [Scanner.canSkip, hskips] at hcan
  cases hcan

/-- Where nothing may be skipped, nothing is. -/
theorem Engine.wp_skip_of_not {Q : Unit → State V → Prop} {E : Stop → State V → Prop}
    (h : s.scanner.canSkip = false) (hq : Q () s) : wp (Engine.skip invoke) Q E s := by
  unfold Engine.skip
  rw [wp_bind, wp_get]
  split
  · exact hq
  · rw [h]
    exact hq

theorem continues_skip (hk : InvokesAs w invoke) (hskip : w.CanSkip skip) (hs : At w skip ctx c s) :
    Continues w skip (.skip ctx) c (Engine.skip invoke) s := by
  cases hid : skip with
  | none =>
    subst hid
    exact Engine.wp_skip_of_not hs.canSkip ⟨ctx, c, .skip_none, .rfl hs⟩
  | some id =>
    subst hid
    unfold Engine.skip Continues
    rw [wp_bind, wp_get]
    obtain ⟨hrule, hcan, hskipping⟩ := Scanner.skipsWith_eq_some hs.skips
    obtain ⟨callee, hcallee, harity⟩ := hskip id rfl
    simp only [hrule, hcan, if_true, wp_bind, Engine.wp_attempt, Engine.wp_bracket]
    have hin : At w none s.context c { s with scanner := s.scanner.setSkipping true } :=
      (hs.context.symm ▸ hs : At w (some id) s.context c s).setSkipping
    refine wp_mono (hk [] s.stack w.canSkip_none hcallee harity.symm hin rfl) ?_ ?_
    · rintro m t ⟨r, hr, hm⟩
      -- Skipping is off again, and what the rule left on the stack is dropped.
      have back : ∀ {d : Cursor} (vs : List V) {u : State V},
          At w none s.context d t → Steady { s with scanner := s.scanner.setSkipping true } t →
          s.scanner.offset ≤ d.offset → t.stack = s.stack.pushAll vs → u.scanner.cursor = d →
          u.scanner = (t.scanner.setSkipping false).moveTo d → u.context = t.context →
          u.stack = t.stack.truncate s.stack.size → Reaches w (some id) s ctx d u := by
        intro d vs u hat hsteady hle hstack hcursor hscanner hcontext hu
        have hsu : Steady s u := by
          rw [← hskipping] at hscanner
          exact ⟨hscanner ▸ hsteady.input, hscanner ▸ hsteady.skipRule, hscanner ▸ hsteady.tokenDepth, hscanner ▸ rfl⟩
        refine ⟨hs.move hsu (hsteady.input ▸ hat.place) hcursor (by rw [hcontext, hat.context, hs.context]), hsu,
          hle, ?_⟩
        rw [hu, hstack, Stack.truncate_pushAll]
      cases r with
      | hit ctx' d =>
        obtain ⟨rfl, hle, -, hat, hsteady, hstack⟩ := hm
        refine ⟨ctx, d, .skip_hit hr, back _ hat hsteady hle hstack hat.cursor ?_ rfl rfl⟩
        show t.scanner.setSkipping false = (t.scanner.setSkipping false).moveTo d
        rw [← hat.cursor]
        rfl
      | miss ctx' =>
        obtain ⟨rfl, hat, hsteady, hstack⟩ := hm
        rw [show (⟨s.scanner.setSkipping true, s.stack, s.context⟩ : State V).scanner.cursor = c from hs.cursor]
          at hat
        refine ⟨ctx, c, .skip_miss hr, back [] hat hsteady (Nat.le_of_eq hs.offset) hstack ?_ ?_ rfl rfl⟩
        · exact hs.cursor
        · exact hs.cursor ▸ rfl
      | stop => exact hm.elim
    · intro e t he
      exact he.imp_right .skip_stop

/-- A part of a run that ends as derivations say wherever it is taken up. -/
def FollowsAll (w : World V) (skip : Option RuleId) (rule : Rule V) (p : Pattern) (m : Engine V Match) : Prop :=
  ∀ {ctx c s}, At w skip ctx c s → Follows w skip (.pattern rule p ctx) c m s

theorem skip_context {ctx ctx' : Context V} {d : Cursor} (h : Derives w skip (.skip ctx) c (.hit ctx' d)) :
    ctx' = ctx := by
  cases h <;> rfl

theorem continues_repeatBody (hk : InvokesAs w invoke) (hskip : w.CanSkip skip) {p : Pattern}
    {body : Engine V Match} (hb : FollowsAll w skip rule p body) (fuel : Nat) (first : Bool)
    (hs : At w skip ctx c s) :
    Continues w skip (.rounds rule p first ctx) c (Engine.repeatBody (Engine.skip invoke) body fuel first) s := by
  induction fuel generalizing first ctx c s with
  | zero => exact .inl rfl
  | succ fuel ih =>
    unfold Engine.repeatBody Continues
    rw [wp_bind, wp_get]
    dsimp only
    split
    · next hend => exact ⟨ctx, c, .rounds_end (hs.atEnd.1 hend), .rfl hs⟩
    · next hend =>
      have hc : c.rest ≠ [] := fun h => hend (hs.atEnd.2 h)
      -- One round from a place up to which was skipped.
      have round : ∀ {c₁ t} {next : Match → Engine V Unit}, next .miss = Engine.moveTo s.scanner.cursor →
          (∀ m, next (.hit m) = Engine.repeatBody (Engine.skip invoke) body fuel false) →
          Derives w (if first then none else skip) (.skip ctx) c (.hit ctx c₁) → Reaches w skip s ctx c₁ t →
          wp (body >>= next)
            (fun _ u => ∃ ctx' d, Derives w skip (.rounds rule p first ctx) c (.hit ctx' d) ∧
              Reaches w skip s ctx' d u) (Stops w skip (.rounds rule p first ctx) c) t := by
        intro c₁ t next hmiss hhit hd ht
        refine (hb ht.toAt).bind ht.toAt (.rounds_stop hc hd) ?_ ?_
        · intro ctx' e u he hu
          rw [hhit]
          refine wp_mono (ih false hu.toAt) ?_ fun _ _ h => h.imp_right (.rounds_hit hc hd he)
          rintro - v ⟨ctx'', d, hr, hv⟩
          exact ⟨ctx'', d, .rounds_hit hc hd he hr, ht.trans (hu.trans hv)⟩
        · intro ctx' u hm hu
          rw [hmiss, hs.cursor]
          exact ⟨ctx', c, .rounds_miss hc hd hm, (ht.trans hu).back hs⟩
      cases first with
      | true => exact round rfl (fun _ => rfl) .skip_none (.rfl hs)
      | false =>
        refine (continues_skip hk hskip hs).bind (fun h => .rounds_stop_skip hc h) ?_
        intro ctx' c₁ t hd ht
        obtain rfl := skip_context hd
        exact round rfl (fun _ => rfl) hd ht

theorem continues_repeatItems (hk : InvokesAs w invoke) (hskip : w.CanSkip skip) {item separator : Pattern}
    {each between : Engine V Match} (hi : FollowsAll w skip rule item each)
    (hp : FollowsAll w skip rule separator between) (fuel : Nat) (hs : At w skip ctx c s) :
    Continues w skip (.items rule item separator ctx) c
      (Engine.repeatItems (Engine.skip invoke) between each fuel) s := by
  induction fuel generalizing ctx c s with
  | zero => exact .inl rfl
  | succ fuel ih =>
    unfold Engine.repeatItems Continues
    rw [wp_bind, Engine.wp_here, hs.cursor]
    refine (continues_skip hk hskip hs).bind .items_stop_skip ?_
    intro ctx' c₁ t h₁ ht
    obtain rfl := skip_context h₁
    refine (hp ht.toAt).bind ht.toAt (.items_stop_separator h₁) ?_ ?_
    · intro ctx₁ c₂ u h₂ hu
      refine (continues_skip hk hskip hu.toAt).bind (.items_stop_between h₁ h₂) ?_
      intro ctx' c₃ v h₃ hv
      obtain rfl := skip_context h₃
      refine (hi hv.toAt).bind hv.toAt (.items_stop h₁ h₂ h₃) ?_ ?_
      · intro ctx₂ c₄ x h₄ hx
        refine wp_mono (ih hx.toAt) ?_ fun _ _ h => h.imp_right (.items_hit h₁ h₂ h₃ h₄)
        rintro - y ⟨ctx'', d, hr, hy⟩
        exact ⟨ctx'', d, .items_hit h₁ h₂ h₃ h₄ hr, ht.trans (hu.trans (hv.trans (hx.trans hy)))⟩
      · intro ctx₂ x hm hx
        exact ⟨ctx₂, c, .items_back h₁ h₂ h₃ hm, (ht.trans (hu.trans (hv.trans hx))).back hs⟩
    · intro ctx₁ u hm hu
      exact ⟨ctx₁, c, .items_end h₁ hm, (ht.trans hu).back hs⟩

/-! ## Actions and calls -/

theorem follows_runAction {name : String} {p : Pattern} {f : Action V} {ctx' : Context V} {d : Cursor} {t : State V}
    (hf : rule.action? name = some f) (hs : At w skip ctx c s)
    (h : Derives w skip (.pattern rule p ctx) c (.hit ctx' d)) (ht : Reaches w skip s ctx' d t) :
    wp (Engine.runAction rule name c (d.offset - c.offset))
      (fun m u => ∃ r, Derives w skip (.pattern rule (.act name p) ctx) c r ∧ r.Meets w skip s m u)
      (Stops w skip (.pattern rule (.act name p) ctx) c) t := by
  unfold Engine.runAction
  rw [wp_bind, wp_get]
  dsimp only
  rw [ht.matchedSince, ht.context, hf]
  dsimp only
  rcases hv : f ctx' (w.matched c d) with ⟨verdict, ctx''⟩
  rw [wp_bind, Engine.wp_setContext]
  have hu : Reaches w skip s ctx'' d { t with context := ctx'' } :=
    ⟨⟨ht.cursor, ht.place, rfl, ht.skips, ht.file, ht.fileIndex⟩,
      ⟨ht.input, ht.skipRule, ht.tokenDepth, ht.skipping⟩, ht.le, ht.stack⟩
  cases verdict with
  | pass => exact ⟨_, .act_pass h hf hv, by rw [← hs.offset], hu⟩
  | reject => exact ⟨_, .act_reject h hf hv, (hu.back hs).missed hs⟩
  | fail cause => exact .inr (.act_fail h hf hv)

theorem wp_passArguments {call : Call} {id : RuleId} (ht : call.target = some id)
    {Q : RuleId → State V → Prop} {E : Stop → State V → Prop}
    (hok : (rule.argumentsOf call s.context).length = call.arity →
      Q id { s with stack := s.stack.pushAll (rule.argumentsOf call s.context) })
    (hno : (rule.argumentsOf call s.context).length ≠ call.arity → ∀ e t, E e t) :
    wp (Engine.passArguments rule call) Q E s := by
  refine wp_mono (Tidy.passArguments ht).2 ?_ ?_
  · rintro _ _ ⟨rfl, hl, rfl⟩
    exact hok hl
  · rintro e t ⟨hl, -⟩
    exact hno hl e t

theorem wp_takeUpValue {call : Call} {callee : Rule V} {below : Stack V} {ctx' : Context V}
    {Q : Unit → State V → Prop} {E : Stop → State V → Prop}
    (hv : callee.hasValue = true → ctx'.value.isSome = true) (hs : s.stack = below.pushAll (callee.results ctx'))
    (h : Q () { s with stack := below, context := rule.receive call callee s.context ctx'.value }) :
    wp (Engine.takeUpValue rule call callee) Q E s := by
  unfold Engine.takeUpValue
  unfold Rule.results at hs
  unfold Rule.receive at h
  cases hc : callee.hasValue with
  | false =>
    simp only [hc, Bool.false_eq_true, if_false] at hs h ⊢
    obtain rfl : s.stack = below := hs
    exact h
  | true =>
    obtain ⟨v, hv⟩ := Option.isSome_iff_exists.1 (hv hc)
    simp only [hc, hv, if_true, Option.toList_some] at hs h ⊢
    rw [wp_bind, wp_get, hs]
    exact h

theorem follows_performCall (hk : InvokesAs w invoke) (hskip : w.CanSkip skip) {call : Call}
    (hc : (Pattern.call call).Linked w.rules rule) (hs : At w skip ctx c s) :
    Follows w skip (.pattern rule (.call call) ctx) c (Engine.performCall w.rules invoke rule call) s := by
  obtain ⟨id, callee, ht, hcallee, harity⟩ := hc
  obtain rfl := hs.context
  unfold Engine.performCall Follows
  rw [wp_bind]
  refine wp_passArguments ht (fun hl => ?_) fun hl e t => .inr (.call_arguments hl)
  have hpushed : At w skip s.context c { s with stack := s.stack.pushAll (rule.argumentsOf call s.context) } :=
    ⟨hs.cursor, hs.place, rfl, hs.skips, hs.file, hs.fileIndex⟩
  rw [wp_bind]
  refine wp_mono (hk _ s.stack hskip hcallee (hl.trans harity.symm) hpushed rfl) ?_ fun e t h => h.imp_right (.call_stop ht hl)
  rintro m t ⟨r, hr, hm⟩
  unfold Engine.endCall
  rw [hcallee]
  cases r with
  | hit ctx' d =>
    obtain ⟨rfl, hle, hv, hat, hsteady, hstack⟩ := hm
    dsimp only
    rw [wp_bind]
    refine wp_takeUpValue hv hstack ⟨_, .call_hit ht hl hcallee hr, rfl, ⟨hat.cursor, hat.place, ?_, hat.skips,
      hat.file, hat.fileIndex⟩, ⟨hsteady.input, hsteady.skipRule, hsteady.tokenDepth, hsteady.skipping⟩, hle, rfl⟩
    rw [hat.context]
  | miss ctx' =>
    obtain ⟨rfl, hat, hsteady, hstack⟩ := hm
    exact ⟨_, .call_miss ht hl hr, rfl, hat, ⟨hsteady.input, hsteady.skipRule, hsteady.tokenDepth, hsteady.skipping⟩,
      Nat.le_refl _, hstack⟩
  | stop => exact hm.elim

/-! ## Patterns and rules -/

/-- Nothing is skipped in a token. -/
theorem At.beginToken (h : At w skip ctx c s) : At w none ctx c { s with scanner := s.scanner.beginToken } :=
  ⟨h.cursor, h.place, h.context, by simp [Scanner.skipsWith, Scanner.canSkip, Scanner.beginToken], h.file,
    h.fileIndex⟩

theorem Answer.Meets.endToken {r : Answer V} {m : Match} {t : State V} (hs : At w skip ctx c s)
    (h : r.Meets w none { s with scanner := s.scanner.beginToken } m t) :
    r.Meets w skip s m { t with scanner := t.scanner.endToken } := by
  have back : ∀ {ctx' : Context V} {d : Cursor},
      Reaches w none { s with scanner := s.scanner.beginToken } ctx' d t →
      Reaches w skip s ctx' d { t with scanner := t.scanner.endToken } := by
    intro ctx' d ht
    have hdepth : t.scanner.tokenDepth - 1 = s.scanner.tokenDepth := by
      have := ht.tokenDepth
      simp only [Scanner.beginToken] at this
      omega
    have hsteady : Steady s { t with scanner := t.scanner.endToken } :=
      ⟨ht.input, ht.skipRule, hdepth, ht.skipping⟩
    exact ⟨hs.move hsteady (ht.input ▸ ht.place) ht.cursor ht.context, hsteady, ht.le, ht.stack⟩
  cases r with
  | hit ctx' d => exact ⟨h.1, back h.2⟩
  | miss ctx' => exact ⟨h.1, back h.2⟩
  | stop => exact h.elim

theorem follows_run (hk : InvokesAs w invoke) (fuel : Nat) (rule : Rule V) {p : Pattern}
    (hp : p.Linked w.rules rule) (hskip : w.CanSkip skip) (hs : At w skip ctx c s) :
    Follows w skip (.pattern rule p ctx) c (p.run w.rules fuel invoke rule) s := by
  induction p generalizing skip ctx c s with
  | empty => exact ⟨_, .empty, by rw [hs.offset, Nat.sub_self]; rfl, .rfl hs⟩
  | one kind => exact follows_matchOne hs kind
  | text literal => exact follows_matchText hs literal
  | keyword word => exact follows_matchKeyword hs word
  | keywords selector words ih =>
    unfold Pattern.run Follows
    rw [wp_bind, Engine.wp_here, hs.cursor]
    refine (ih hp hskip hs).bind hs .keywords_stop ?_ ?_
    · intro ctx' d t h ht
      rw [wp_bind, Engine.wp_here, ht.cursor]
      split
      · next hw => exact ⟨_, .keywords_hit h (Bool.and_eq_true_iff.1 hw).2, by rw [hs.offset], ht⟩
      · next hw =>
        have hw : words.contains (String.ofList (c.textTo d.offset)) = false := by simpa [Match.isHit] using hw
        rw [wp_bind, Engine.wp_moveTo, Engine.wp_missed]
        have hback := ht.back hs
        exact ⟨_, .keywords_other h hw, (hback.trans (reaches_note hback.toAt _)).missed hs⟩
    · intro ctx' t h ht
      rw [wp_bind, Engine.wp_here]
      simp only [Match.isHit, Bool.false_and, Bool.false_eq_true, if_false]
      rw [wp_bind, Engine.wp_moveTo, Engine.wp_missed]
      have hback := ht.back hs
      exact ⟨_, .keywords_miss h, (hback.trans (reaches_note hback.toAt _)).missed hs⟩
  | seq a b ih₁ ih₂ =>
    unfold Pattern.run Follows
    rw [wp_bind, Engine.wp_here, hs.cursor]
    refine (ih₁ hp.1 hskip hs).bind hs .seq_stop_first ?_ fun ctx₁ t h ht => ⟨_, .seq_first h, ht.missed hs⟩
    intro ctx₁ c₁ t ha ht
    rw [wp_bind, Engine.wp_here, ht.cursor]
    refine (continues_skip hk hskip ht.toAt).bind (.seq_stop_skip ha) ?_
    intro ctx' c₂ u hd hu
    obtain rfl := skip_context hd
    refine (ih₂ hp.2 hskip hu.toAt).bind hu.toAt (.seq_stop_second ha hd) ?_ ?_
    · intro ctx₂ d v hb hv
      have hle := hv.le
      rw [hu.offset] at hle
      rcases hn : d.offset - c₂.offset with _ | n
      · exact ⟨_, .seq_empty ha hd hb (by omega), (ht.moveTo (hu.trans hv)).hitFrom hs⟩
      · exact ⟨_, .seq_hit ha hd hb (by omega), (ht.trans (hu.trans hv)).hitFrom hs⟩
    · intro ctx₂ v hb hv
      exact ⟨_, .seq_second ha hd hb, ((ht.trans (hu.trans hv)).back hs).missed hs⟩
  | alt a b ih₁ ih₂ =>
    unfold Pattern.run Follows
    rw [wp_bind, Engine.wp_here, hs.cursor]
    refine (ih₁ hp.1 hskip hs).bind hs .alt_stop
      (fun ctx₁ d t ha ht => ⟨_, .alt_first ha, by rw [hs.offset], ht⟩) ?_
    intro ctx₁ t ha ht
    rw [wp_bind, Engine.wp_moveTo]
    have hback := ht.back hs
    refine wp_mono (ih₂ hp.2 hskip hback.toAt) ?_ fun _ _ h => h.imp_right (.alt_second ha)
    rintro m u ⟨r, hr, hm⟩
    refine ⟨r, .alt_second ha hr, ?_⟩
    have hoff : (t.scanner.moveTo c).offset = s.scanner.offset := hs.offset.symm
    cases r with
    | hit ctx₂ d => exact ⟨by rw [hm.1]; exact congrArg _ (congrArg _ hoff), hback.trans hm.2⟩
    | miss ctx₂ => exact hm.1 ▸ (hback.trans hm.2).missed hs
    | stop => exact hm
  | diff a b ih₁ ih₂ =>
    unfold Pattern.run Follows
    rw [wp_bind, Engine.wp_here, hs.cursor]
    refine (ih₁ hp.1 hskip hs).bind hs .diff_stop_subject ?_
      fun ctx₁ t h ht => ⟨_, .diff_subject h, (ht.back hs).missed hs⟩
    intro ctx₁ d t ha ht
    rw [wp_bind, Engine.wp_here, ht.cursor, wp_bind, Engine.wp_moveTo]
    have hback := ht.back hs
    have hle := ht.le
    rw [hs.offset] at hle
    -- The place the subject ended at, taken up again after the excluded pattern ran.
    have again : ∀ {ctx₂ e u}, Reaches w skip { t with scanner := t.scanner.moveTo c } ctx₂ e u →
        (Answer.hit ctx₂ d).Meets w skip s (.hit (d.offset - c.offset))
          { u with scanner := u.scanner.moveTo d } := by
      intro ctx₂ e u hu
      have hsteady : Steady s { u with scanner := u.scanner.moveTo d } :=
        ⟨hu.input.trans ht.input, hu.skipRule.trans ht.skipRule, hu.tokenDepth.trans ht.tokenDepth,
          hu.skipping.trans ht.skipping⟩
      exact ⟨by rw [hs.offset], hs.move hsteady (ht.input ▸ ht.place) rfl hu.context, hsteady, ht.le,
        hu.stack.trans ht.stack⟩
    refine (ih₂ hp.2 hskip hback.toAt).bind hback.toAt (.diff_stop_excluded ha) ?_ ?_
    · intro ctx₂ e u hb hu
      have hge := hu.le
      rw [hback.offset] at hge
      simp only [Match.length?, Option.any_some, decide_eq_true_eq]
      split
      · exact ⟨_, .diff_excluded ha hb (by omega), ((hback.trans hu).back hs).missed hs⟩
      · exact ⟨_, .diff_longer ha hb (by omega), again hu⟩
    · intro ctx₂ u hb hu
      simp only [Match.length?, Option.any_none, Bool.false_eq_true, if_false]
      exact ⟨_, .diff_apart ha hb, again hu⟩
  | list item separator ih₁ ih₂ =>
    unfold Pattern.run Follows
    rw [wp_bind, Engine.wp_here, hs.cursor]
    refine (ih₁ hp.1 hskip hs).bind hs .list_stop ?_ fun ctx₁ t h ht => ⟨_, .list_miss h, ht.missed hs⟩
    intro ctx₁ c₁ t h ht
    refine (continues_repeatItems hk hskip (ih₁ hp.1 hskip) (ih₂ hp.2 hskip) fuel ht.toAt).bind (.list_hit h) ?_
    intro ctx₂ d u hi hu
    exact ⟨_, .list_hit h hi, (ht.trans hu).hitFrom hs⟩
  | opt subject ih =>
    unfold Pattern.run Follows
    rw [wp_bind, Engine.wp_here, hs.cursor]
    refine (ih hp hskip hs).bind hs .opt_stop (fun ctx₁ d t h ht => ⟨_, .opt_hit h, by rw [hs.offset], ht⟩) ?_
    intro ctx₁ t h ht
    exact ⟨_, .opt_miss h, by rw [hs.offset, Nat.sub_self]; rfl, ht.back hs⟩
  | many subject ih =>
    unfold Pattern.run Follows
    rw [wp_bind, Engine.wp_here, hs.cursor]
    refine (continues_repeatBody hk hskip (ih hp hskip) fuel true hs).bind .many ?_
    intro ctx₁ d t h ht
    exact ⟨_, .many h, ht.hitFrom hs⟩
  | many1 subject ih =>
    unfold Pattern.run Follows
    rw [wp_bind, Engine.wp_here, hs.cursor]
    refine (ih hp hskip hs).bind hs .many1_stop ?_ fun ctx₁ t h ht => ⟨_, .many1_miss h, ht.missed hs⟩
    intro ctx₁ c₁ t h ht
    refine (continues_repeatBody hk hskip (ih hp hskip) fuel false ht.toAt).bind (.many1_hit h) ?_
    intro ctx₂ d u hr hu
    exact ⟨_, .many1_hit h hr, (ht.trans hu).hitFrom hs⟩
  | expect subject ih =>
    refine (ih hp hskip hs).bind hs .expect_stop (fun ctx₁ d t h ht => ⟨_, .expect_hit h, by rw [hs.offset], ht⟩) ?_
    exact fun ctx₁ t h ht => .inr (.expect_miss h)
  | token subject ih =>
    refine (Engine.wp_bracket _ _ _).2 (wp_mono (ih hp w.canSkip_none hs.beginToken) ?_ ?_)
    · rintro m t ⟨r, hr, hm⟩
      exact ⟨r, .token hr, hm.endToken hs⟩
    · exact fun e t h => h.imp_right .token
  | lookahead subject ih =>
    unfold Pattern.run Follows
    rw [wp_bind, Engine.wp_here, hs.cursor]
    refine (ih hp hskip hs).bind hs .lookahead_stop ?_ ?_
    · exact fun ctx₁ d t h ht => ⟨_, .lookahead_hit h, by rw [hs.offset, Nat.sub_self]; rfl, ht.back hs⟩
    · exact fun ctx₁ t h ht => ⟨_, .lookahead_miss h, (ht.back hs).missed hs⟩
  | notAhead subject ih =>
    unfold Pattern.run Follows
    rw [wp_bind, Engine.wp_here, hs.cursor]
    refine (ih hp hskip hs).bind hs .notAhead_stop ?_ ?_
    · exact fun ctx₁ d t h ht => ⟨_, .notAhead_hit h, (ht.back hs).missed hs⟩
    · exact fun ctx₁ t h ht => ⟨_, .notAhead_miss h, by rw [hs.offset, Nat.sub_self]; rfl, ht.back hs⟩
  | act name subject ih =>
    obtain ⟨⟨f, hf⟩, hp⟩ := hp
    unfold Pattern.run Follows
    rw [wp_bind, Engine.wp_here, hs.cursor]
    refine (ih hp hskip hs).bind hs .act_stop ?_ fun ctx₁ t h ht => ⟨_, .act_miss h, ht.missed hs⟩
    exact fun ctx₁ d t h ht => follows_runAction hf hs h ht
  | call call => exact follows_performCall hk hskip hp hs

end

section
variable {w : World V}

theorem invokesAs (hw : ∀ (id : RuleId) rule, w.rules[id]? = some rule → rule.definition.Linked w.rules rule)
    (fuel : Nat) : InvokesAs w (Engine.invoke w.rules fuel) := by
  induction fuel with
  | zero => exact fun _ _ _ _ _ _ _ => .inl rfl
  | succ fuel ih =>
    intro skip id rule c s args below hskip hrule harity hs hstack
    unfold Engine.invoke
    rw [hrule]
    dsimp only
    unfold Engine.matchRule Engine.enter
    rw [wp_bind, wp_get, wp_bind, wp_bind, wp_get, hstack, ← harity, Stack.popN?_pushAll]
    dsimp only
    rw [wp_bind, Engine.wp_setStack, wp_bind, Engine.wp_setContext, Engine.wp_onScanner, wp_bind,
      Engine.wp_attempt, hs.offset]
    obtain ⟨trace, henter⟩ := s.scanner.enterRule_eq rule.qualifiedName
    rw [show ∀ (stack : Stack V) (context : Context V),
      (⟨s.scanner.enterRule rule.qualifiedName, stack, context⟩ : State V) =
        ⟨{ s.scanner with trace, ruleDepth := s.scanner.ruleDepth + 1 }, stack, context⟩ from
        fun _ _ => by rw [henter]]
    have hin : At w skip (.enter rule.attributes args c.offset) c
        ⟨{ s.scanner with trace, ruleDepth := s.scanner.ruleDepth + 1 }, below,
          .enter rule.attributes args c.offset⟩ :=
      ⟨hs.cursor, hs.place, rfl, hs.skips, hs.file, hs.fileIndex⟩
    -- Leaving a rule changes the trace only, and goes back to the context of the caller.
    have hleave : ∀ (t : State V) matched, ∃ trace, t.scanner.leaveRule rule.qualifiedName s.scanner.cursor matched =
        { t.scanner with trace, ruleDepth := t.scanner.ruleDepth - 1 } :=
      fun t matched => t.scanner.leaveRule_eq _ _ _
    refine wp_mono (follows_run ih fuel rule (hw id rule hrule) hskip hin) ?_ ?_
    · rintro m t ⟨r, hr, hm⟩
      unfold Engine.leave
      dsimp only
      rw [wp_bind, Engine.wp_onScanner]
      obtain ⟨trace', hl⟩ := hleave t m.isHit
      rw [hl]
      have hat : ∀ {ctx d stack}, Reaches w skip
            ⟨{ s.scanner with trace, ruleDepth := s.scanner.ruleDepth + 1 }, below,
              .enter rule.attributes args c.offset⟩ ctx d t →
          let u : State V := ⟨{ t.scanner with trace := trace', ruleDepth := t.scanner.ruleDepth - 1 }, stack,
            s.context⟩
          At w skip s.context d u ∧ Steady s u :=
        fun ht => ⟨⟨ht.cursor, ht.place, rfl, ht.skips, ht.file, ht.fileIndex⟩,
          ⟨ht.input, ht.skipRule, ht.tokenDepth, ht.skipping⟩⟩
      cases r with
      | hit ctx d =>
        obtain ⟨rfl, ht⟩ := hm
        have hle := ht.le
        dsimp only
        rw [wp_bind]
        unfold Engine.pushValue
        cases hv : rule.hasValue with
        | false =>
          simp only [Bool.false_eq_true, if_false]
          refine ⟨_, .rule_hit hrule harity hr (by simp [hv]), rfl, hle, by simp [hv], (hat ht).1, (hat ht).2, ?_⟩
          rw [Rule.results, hv]
          exact ht.stack
        | true =>
          rw [if_pos rfl, wp_bind, wp_get]
          dsimp only
          rw [ht.context]
          cases hc : ctx.value with
          | none => exact .inr (.rule_valueless hrule harity hr hv hc)
          | some v =>
            refine ⟨_, .rule_hit hrule harity hr (by simp [hc]), rfl, hle, by simp [hc], (hat ht).1, (hat ht).2, ?_⟩
            rw [Rule.results, hv, hc]
            exact congrArg (Stack.push · v) ht.stack
      | miss ctx =>
        obtain ⟨rfl, ht⟩ := hm
        exact ⟨_, .rule_miss hrule harity hr, rfl, (hat ht).1, (hat ht).2, ht.stack⟩
      | stop => exact hm.elim
    · intro e t he
      exact he.imp_right (.rule_stop hrule harity)

end

/-! ## Parses -/

/-- The rule, with what may be skipped around it, takes up all of a text and has the value. -/
def World.Accepts (w : World V) (skip : Option RuleId) (id : RuleId) (args : List V) (text : List Char) (v : V) :
    Prop :=
  ∃ c ctx d e, Derives w skip (.skip .empty) ⟨0, text⟩ (.hit .empty c) ∧
    Derives w skip (.rule id args) c (.hit ctx d) ∧ ctx.value = some v ∧
    Derives w skip (.skip .empty) d (.hit .empty e) ∧ e.rest = []

theorem Input.cursorAt_whole (text : List Char) (fileIndex : Nat) (file : String) :
    (Input.whole text fileIndex file).cursorAt 0 = ⟨0, text⟩ := by
  have h : Text.slice? text 0 (Text.byteLength text) = some text :=
    Text.slice?_eq_some_iff.2 ⟨[], [], by simp, rfl, by simp⟩
  show (⟨0, (Text.slice? text 0 (Text.byteLength text)).getD []⟩ : Cursor) = _
  rw [h, Option.getD_some]

section
variable {d : Domain V} {g : Grammar} {start : RuleId} {rule : Rule V}

theorem at_startState (g : Grammar) (rules : Array (Rule V)) (source : String) (options : Options)
    (stack : Stack V) :
    At ⟨rules, options.file, options.fileIndex⟩ g.skip .empty ⟨0, source.toList⟩
      (Domain.startState g source options stack) where
  cursor := Input.cursorAt_whole source.toList options.fileIndex options.file
  place := Input.cursorAt_whole source.toList options.fileIndex options.file ▸
    Scanner.new_whole_in source.toList options.fileIndex options.file
  context := rfl
  skips := by
    unfold Scanner.skipsWith Scanner.canSkip Domain.startState
    cases g.skip <;> rfl
  file := rfl
  fileIndex := rfl

/-- The end of a parse whose start rule left its value on the stack. -/
theorem wp_endStart {s : State V} {stack : Stack V} {v : V} {Q : Option V → State V → Prop}
    {E : Stop → State V → Prop} {n : Nat} (hv : rule.hasValue = true) (hs : s.stack = stack.push v)
    (hend : s.scanner.atEnd = true → Q (some v) { s with stack })
    (hmore : s.scanner.atEnd = false → ∀ e, E e s) : wp (Engine.endStart rule stack.size (.hit n)) Q E s := by
  unfold Engine.endStart
  rw [wp_bind, wp_get]
  cases he : s.scanner.atEnd with
  | false => exact hmore he _
  | true =>
    simp only [Match.isMiss, Bool.not_true, Bool.or_self, Bool.false_eq_true, if_false, hv, hs]
    show wp (do Engine.setStack stack; if stack.size = stack.size then _ else _) Q E s
    rw [if_pos rfl]
    exact hend he

/-- A run of the start rule accepts the text, or refuses it for good. -/
theorem runStart_accepts (hd : d.Linked) (hmem : g ∈ d.grammars) (hrule : d.rules[start]? = some rule)
    (hv : rule.hasValue = true) {args : List V} (ha : args.length = rule.arity) (source : String)
    (options : Options) (stack : Stack V) (fuel : Nat) :
    wp (Engine.runStart (Engine.invoke d.rules fuel) start rule stack.size)
      (fun v _ => ∃ v', v = some v' ∧
        World.Accepts ⟨d.rules, options.file, options.fileIndex⟩ g.skip start args source.toList v')
      (fun e _ => e = .exhausted ∨
        ∀ v, ¬ World.Accepts ⟨d.rules, options.file, options.fileIndex⟩ g.skip start args source.toList v)
      (Domain.startState g source options (stack.pushAll args)) := by
  have hs := at_startState g d.rules source options (stack.pushAll args)
  have hstack : (Domain.startState g source options (stack.pushAll args)).stack = stack.pushAll args := rfl
  generalize Domain.startState g source options (stack.pushAll args) = s at hs hstack ⊢
  obtain ⟨w, hw⟩ : ∃ w : World V, w = ⟨d.rules, options.file, options.fileIndex⟩ := ⟨_, rfl⟩
  rw [← hw] at hs ⊢
  have hk : InvokesAs w (Engine.invoke d.rules fuel) := by
    subst hw
    exact invokesAs hd.rules fuel
  have hskip : w.CanSkip g.skip := by
    intro id hid
    obtain ⟨callee, hcallee, hzero, -⟩ := hd.skip g hmem id hid
    exact ⟨callee, hw ▸ hcallee, hzero⟩
  unfold Engine.runStart Engine.matchStart
  simp only [wp_bind]
  refine wp_mono (continues_skip hk hskip hs) ?_ ?_
  · rintro - t ⟨ctx', c, h₁, ht⟩
    obtain rfl := skip_context h₁
    have hat : At w g.skip t.context c t := ht.context.symm ▸ ht.toAt
    refine wp_mono (hk args stack hskip (hw ▸ hrule) ha hat (ht.stack.trans hstack)) ?_ ?_
    · rintro m u ⟨r, hr, hm⟩
      cases r with
      | miss ctx =>
        obtain ⟨rfl, -⟩ := hm
        refine .inr ?_
        rintro v ⟨c', ctx', d', e', h₁', h₂', -⟩
        cases h₁.unique h₁'
        cases hr.unique h₂'
      | stop => exact hm.elim
      | hit ctx d' =>
        obtain ⟨rfl, -, hvalue, hu, -, hustack⟩ := hm
        obtain ⟨v, hctx⟩ := Option.isSome_iff_exists.1 (hvalue hv)
        rw [ht.context] at hu
        simp only [Match.isHit, if_true, wp_bind]
        refine wp_mono (continues_skip hk hskip hu) ?_ ?_
        · rintro - x ⟨ctx', e, h₃, hx⟩
          obtain rfl := skip_context h₃
          have hpop : x.stack = stack.push v := by
            rw [hx.stack, hustack, Rule.results, hv, hctx]
            rfl
          refine wp_endStart hv hpop (fun hend => ?_) fun hend _ => .inr ?_
          · exact ⟨v, rfl, c, ctx, d', e, h₁, hr, hctx, h₃, hx.atEnd.1 hend⟩
          · rintro v' ⟨c', ctx', d'', e', h₁', h₂', -, h₃', hrest⟩
            cases h₁.unique h₁'
            cases hr.unique h₂'
            cases h₃.unique h₃'
            rw [hx.atEnd.2 hrest] at hend
            cases hend
        · refine fun e t he => he.imp_right fun hstop => ?_
          rintro v' ⟨c', ctx', d'', e', h₁', h₂', -, h₃', -⟩
          cases h₁.unique h₁'
          cases hr.unique h₂'
          cases hstop.unique h₃'
    · refine fun e t he => he.imp_right fun hstop => ?_
      rintro v' ⟨c', ctx', d'', e', h₁', h₂', -⟩
      cases h₁.unique h₁'
      cases hstop.unique h₂'
  · refine fun e t he => he.imp_right fun hstop => ?_
    rintro v' ⟨c', ctx', d'', e', h₁', -⟩
    cases hstop.unique h₁'

/-- A parse has a value exactly if the text is accepted with it. -/
theorem parseIn_eq_ok_iff (hd : d.Linked) (hg : Progress.grounded d.rules g.skip = true) (hmem : g ∈ d.grammars)
    (hstart : g.start = some start) (hrule : d.rules[start]? = some rule) (hv : rule.hasValue = true)
    {args : List V} (ha : args.length = rule.arity) (source : String) (options : Options) (session : Session V)
    (v : V) :
    (d.parseIn g source options args session).1 = .ok (some v) ↔
      World.Accepts ⟨d.rules, options.file, options.fileIndex⟩ g.skip start args source.toList v := by
  have hends := Progress.parseIn_ends hd hg hmem source options args session
  have hrun := runStart_accepts hd hmem hrule hv ha source options session.stack (d.fuelOf source)
  rw [Domain.parseIn_eq hstart hrule source options ha] at hends ⊢
  rcases hout : outcome (Engine.runStart (Engine.invoke d.rules (d.fuelOf source)) start rule session.stack.size)
    (Domain.startState g source options (session.stack.pushAll args)) with ⟨e | v', t⟩
  · rw [hout] at hends
    have hno := wp_error hrun hout
    exact ⟨nofun, fun h => (hno.resolve_left fun he => hends (congrArg _ he)) v h |>.elim⟩
  · obtain ⟨v', rfl, haccepts⟩ := wp_ok hrun hout
    constructor
    · intro h
      cases h
      exact haccepts
    · rintro ⟨c, ctx, d', e, h₁, h₂, h₃, -⟩
      obtain ⟨c', ctx', d'', e', h₁', h₂', h₃', -⟩ := haccepts
      cases h₁.unique h₁'
      cases h₂.unique h₂'
      cases h₃.symm.trans h₃'
      rfl

end

end PegFront
