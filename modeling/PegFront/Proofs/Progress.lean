import PegFront.Proofs.Position
import PegFront.Proofs.Sessions

/-!
# Progress

A run could go on for ever in two ways: a rule that calls itself before any input is taken, and a
repetition with rounds that take nothing. Both can be seen in the patterns. `Pattern.consumes` tells which
patterns take some input whenever they match, `Pattern.leads` which rules can run before that, and
`Pattern.guarded` that all repetitions consume. If the rules that lead rules lead nowhere back, fuel
proportional to the length of the input is never used up: each further call goes down in the order of
leading or is made with less input left, and there is fuel for going all the way down at each offset.
-/

namespace PegFront

variable {V : Type}

namespace Pattern

/-- Whether every hit takes some input, given the rules whose hits do. -/
def consumes (eats : RuleId → Bool) : Pattern → Bool
  | .one _ => true
  | .text literal | .keyword literal => literal.utf8ByteSize != 0
  | .seq a b => a.consumes eats || b.consumes eats
  | .alt a b => a.consumes eats && b.consumes eats
  | .diff p _ | .list p _ | .many1 p | .expect p | .token p | .act _ p | .keywords p _ => p.consumes eats
  | .call c => c.target.any eats
  | .empty | .opt _ | .many _ | .lookahead _ | .notAhead _ => false

/-- The rules that can run before the pattern has taken any input. -/
def leads (eats : RuleId → Bool) (skip : Option RuleId) : Pattern → List RuleId
  | .seq a b =>
    a.leads eats skip ++ if a.consumes eats then [] else skip.toList ++ b.leads eats skip
  | .alt a b | .diff a b => a.leads eats skip ++ b.leads eats skip
  | .list p _ | .opt p | .many p | .many1 p | .expect p | .token p | .lookahead p | .notAhead p
  | .act _ p | .keywords p _ => p.leads eats skip
  | .call c => c.target.toList
  | .empty | .one _ | .text _ | .keyword _ => []

/-- Whether every round of every repetition takes some input. -/
def guarded (eats : RuleId → Bool) : Pattern → Bool
  | .seq a b | .alt a b | .diff a b => a.guarded eats && b.guarded eats
  | .list a b => a.consumes eats && a.guarded eats && b.guarded eats
  | .many p | .many1 p => p.consumes eats && p.guarded eats
  | .opt p | .expect p | .token p | .lookahead p | .notAhead p | .act _ p | .keywords p _ => p.guarded eats
  | .empty | .one _ | .text _ | .keyword _ | .call _ => true

theorem consumes_mono {eats eats' : RuleId → Bool} (h : ∀ id, eats id = true → eats' id = true)
    {p : Pattern} (hp : p.consumes eats = true) : p.consumes eats' = true := by
  induction p with
  | seq a b ih₁ ih₂ =>
    simp only [consumes, Bool.or_eq_true] at hp ⊢
    exact hp.imp ih₁ ih₂
  | alt a b ih₁ ih₂ =>
    simp only [consumes, Bool.and_eq_true] at hp ⊢
    exact ⟨ih₁ hp.1, ih₂ hp.2⟩
  | diff _ _ ih _ | list _ _ ih _ | many1 _ ih | expect _ ih | token _ ih | act _ _ ih
  | keywords _ _ ih => exact ih hp
  | call c =>
    simp only [consumes, Option.any_eq_true] at hp ⊢
    obtain ⟨id, hid, hp⟩ := hp
    exact ⟨id, hid, h id hp⟩
  | one | text | keyword => exact hp
  | empty | opt | many | lookahead | notAhead => nomatch hp

end Pattern

namespace Progress

variable (rules : Array (Rule V)) (skip : Option RuleId)

/-- Whether hits of a rule are seen to take some input when calls are followed to a depth. -/
def eatsWithin : Nat → RuleId → Bool
  | 0, _ => false
  | depth + 1, id =>
    match rules[id]? with
    | some rule => rule.definition.consumes (eatsWithin depth)
    | none => false

def eats : RuleId → Bool := eatsWithin rules rules.size

/-- Whether the rules that lead a rule, those that lead them, and so on, end within a depth. -/
def settlesWithin : Nat → RuleId → Bool
  | 0, _ => false
  | depth + 1, id =>
    match rules[id]? with
    | some rule =>
      rule.definition.guarded (eats rules) &&
        (rule.definition.leads (eats rules) skip).all (settlesWithin depth)
    | none => false

/-- No rule of the table leads to itself, and no repetition stands still. -/
def grounded : Bool :=
  (List.range rules.size).all (settlesWithin rules skip (rules.size + 1)) && skip.all (· < rules.size)

variable {rules skip}

theorem eatsWithin_succ {depth : Nat} {id : RuleId} (h : eatsWithin rules depth id = true) :
    eatsWithin rules (depth + 1) id = true := by
  induction depth generalizing id with
  | zero => nomatch h
  | succ depth ih =>
    unfold eatsWithin at h ⊢
    split
    · next hr =>
      rw [hr] at h
      exact Pattern.consumes_mono (fun _ => ih) h
    · next hr =>
      rw [hr] at h
      exact h

/-- A rule whose hits take input has a pattern whose hits do. -/
theorem consumes_of_eats {id : RuleId} {rule : Rule V} (hr : rules[id]? = some rule)
    (h : eats rules id = true) : rule.definition.consumes (eats rules) = true := by
  unfold eats at h ⊢
  obtain ⟨hid, _⟩ := Array.getElem?_eq_some_iff.1 hr
  obtain ⟨size, hsize⟩ : ∃ size, rules.size = size + 1 := ⟨rules.size - 1, by omega⟩
  rw [hsize] at h ⊢
  unfold eatsWithin at h
  rw [hr] at h
  exact Pattern.consumes_mono (fun _ => eatsWithin_succ) h

/-- Bytes of the input that are left. -/
def left (s : State V) : Nat := s.scanner.input.stop - s.scanner.offset

/-- There is fuel for the rule at this place: for going down in the order of leading as far as it does, and
for going down all the way at this and every later place. -/
def Affords (rules : Array (Rule V)) (skip : Option RuleId) (fuel : Nat) (s : State V) (id : RuleId) : Prop :=
  ∃ depth, settlesWithin rules skip depth id = true ∧ depth + (rules.size + 1) * (left s + 1) ≤ fuel

theorem Affords.mono {fuel : Nat} {s t : State V} {id : RuleId} (h : Affords rules skip fuel s id)
    (ht : left t ≤ left s) : Affords rules skip fuel t id := by
  obtain ⟨depth, hd, hf⟩ := h
  refine ⟨depth, hd, Nat.le_trans (Nat.add_le_add_left (Nat.mul_le_mul_left _ ?_) depth) hf⟩
  omega

theorem budget_mono {fuel : Nat} {s t : State V} (h : (rules.size + 1) * (left s + 1) ≤ fuel)
    (ht : left t ≤ left s) : (rules.size + 1) * (left t + 1) ≤ fuel :=
  Nat.le_trans (Nat.mul_le_mul_left _ (Nat.succ_le_succ ht)) h

theorem rounds_le {fuel : Nat} {s : State V} (h : (rules.size + 1) * (left s + 1) ≤ fuel) :
    left s + 1 ≤ fuel :=
  Nat.le_trans (Nat.le_mul_of_pos_left _ (Nat.succ_pos _)) h

/-- Once some input is taken, there is fuel for every rule. -/
theorem affords_of_lt (hg : grounded rules skip = true) {fuel : Nat} {s t : State V} {id : RuleId}
    (hid : id < rules.size) (hs : (rules.size + 1) * (left s + 1) ≤ fuel) (ht : left t < left s) :
    Affords rules skip fuel t id := by
  refine ⟨rules.size + 1, ?_, Nat.le_trans ?_ hs⟩
  · simp only [grounded, Bool.and_eq_true, List.all_eq_true, List.mem_range] at hg
    exact hg.1 id hid
  · have hle : (rules.size + 1) * (left t + 1) ≤ (rules.size + 1) * left s := Nat.mul_le_mul_left _ ht
    rw [Nat.mul_succ (rules.size + 1) (left s)]
    omega

/-! ## Runs -/

/-- The scanner is at a place of its input and skips with the given rule. -/
structure Standing (skip : Option RuleId) (s : State V) : Prop where
  place : s.scanner.cursor.In s.scanner.input
  skipRule : s.scanner.skipRule = skip

/-- A match from `s` ended in `t`, and it took some input if it hit and should have. -/
structure Progressed (skip : Option RuleId) (consumes : Bool) (s : State V) (m : Match) (t : State V) :
    Prop extends Reached s m t where
  skipRule : t.scanner.skipRule = skip
  eaten : ∀ n, m = .hit n → consumes = true → 1 ≤ n

/-- From `s` the match ends, or it stops for another reason than fuel. -/
def Ends (skip : Option RuleId) (consumes : Bool) (m : Engine V Match) (s : State V) : Prop :=
  wp m (Progressed skip consumes s) (fun e _ => e ≠ .exhausted) s

/-- From `s` the computation ends further on, or it stops for another reason than fuel. -/
def Advances (skip : Option RuleId) (m : Engine V Unit) (s : State V) : Prop :=
  wp m (fun _ t => Onward s t ∧ t.scanner.skipRule = skip) (fun e _ => e ≠ .exhausted) s

theorem Onward.standing {s t : State V} (h : Onward s t) (hk : t.scanner.skipRule = skip) :
    Standing skip t := ⟨h.input ▸ h.cursor, hk⟩

theorem Onward.left_le {s t : State V} (h : Onward s t) : left t ≤ left s := by
  have := h.le
  unfold left
  rw [h.input]
  omega

theorem Standing.stays {s t : State V} (h : Standing skip s) (ht : Stays s t) : Standing skip t := by
  refine ⟨?_, ht.skipRule.trans h.skipRule⟩
  rw [ht.cursor, ht.input]
  exact h.place

theorem left_of_stays {s t : State V} (h : Stays s t) : left t = left s := by
  unfold left Scanner.offset
  rw [h.input, h.cursor]

namespace Progressed

variable {c : Bool} {s t : State V} {m : Match} {n : Nat}

theorem standing (h : Progressed skip c s m t) : Standing skip t := ⟨h.input ▸ h.cursor, h.skipRule⟩

theorem left_hit (h : Progressed skip c s (.hit n) t) : left t + n = left s := by
  have hends : t.scanner.offset = s.scanner.offset + n := h.ends
  have hle : t.scanner.offset ≤ s.scanner.input.stop := h.cursor.offset_le
  unfold left
  rw [h.input]
  omega

/-- Back at the place where the match began. -/
theorem back (h : Progressed skip c s m t) (hs : Standing skip s) :
    Standing skip { t with scanner := t.scanner.moveTo s.scanner.cursor } := by
  refine ⟨?_, h.skipRule⟩
  show s.scanner.cursor.In t.scanner.input
  rw [h.input]
  exact hs.place

theorem left_back (h : Progressed skip c s m t) :
    left { t with scanner := t.scanner.moveTo s.scanner.cursor } = left s := by
  show t.scanner.input.stop - _ = _
  rw [h.input]
  rfl

end Progressed

section
variable {fuel : Nat}

/-- What is known of the invocations a rule makes. -/
def Invocable (rules : Array (Rule V)) (skip : Option RuleId) (fuel : Nat) : Prop :=
  ∀ id s, Standing skip s → Affords rules skip fuel s id →
    Ends skip (eats rules id) (Engine.invoke rules fuel id) s

theorem advances_skip (hk : Invocable rules skip fuel) {s : State V} (hs : Standing skip s)
    (ha : ∀ id, skip = some id → Affords rules skip fuel s id) :
    Advances skip (Engine.skip (Engine.invoke rules fuel)) s := by
  have honward := (Advancing.skip (Disciplined.invoke rules fuel)).onward
    (Erases.skip (Erases.invoke rules fuel)) hs.place
  have hwp : wp (Engine.skip (Engine.invoke rules fuel)) (fun _ t => t.scanner.skipRule = skip)
      (fun e _ => e ≠ .exhausted) s := by
    unfold Engine.skip
    simp only [wp_bind, wp_get]
    cases hid : s.scanner.skipRule with
    | none => exact hs.skipRule
    | some id =>
      dsimp only
      split
      · simp only [wp_bind, Engine.wp_attempt, Engine.wp_bracket]
        have hafford := ha id (hs.skipRule.symm.trans hid)
        refine wp_mono (hk id { s with scanner := s.scanner.setSkipping true } ⟨hs.place, hs.skipRule⟩
          hafford) ?_ fun e t he => he
        rintro (n | _) t ht
        · exact ht.skipRule
        · exact ht.skipRule
      · exact hs.skipRule
  exact wp_mono (wp_and honward hwp) (fun _ _ h => h) fun _ _ h => h.2

/-- A repetition goes round at most once for each byte that is left, and once more. -/
theorem ends_repeatBody {skipping : Engine V Unit} {body : Engine V Match} {L : Nat}
    (hskip : ∀ t : State V, Standing skip t → left t < L → Advances skip skipping t)
    (hbody : ∀ t : State V, Standing skip t → left t ≤ L → Ends skip true body t)
    {rounds : Nat} {first : Bool} {s : State V} (hs : Standing skip s) (hL : left s ≤ L)
    (hfirst : first = false → left s < L) (hr : left s + 1 ≤ rounds) :
    wp (Engine.repeatBody skipping body rounds first) (fun _ t => t.scanner.skipRule = skip)
      (fun e _ => e ≠ .exhausted) s := by
  induction rounds generalizing first s with
  | zero => omega
  | succ rounds ih =>
    unfold Engine.repeatBody
    simp only [wp_bind, wp_get]
    split
    · exact hs.skipRule
    cases first with
    | true =>
      refine wp_then (hbody s hs hL) fun m u hu => ?_
      cases m with
      | miss => exact hu.skipRule
      | hit n =>
        have hn := hu.eaten n rfl rfl
        have hleft := hu.left_hit
        exact ih hu.standing (by omega) (fun _ => by omega) (by omega)
    | false =>
      refine wp_then (hskip s hs (hfirst rfl)) fun _ t ht => ?_
      have hle := Onward.left_le ht.1
      refine wp_then (hbody t (Onward.standing ht.1 ht.2) (by omega)) fun m u hu => ?_
      cases m with
      | miss => exact hu.skipRule
      | hit n =>
        have hn := hu.eaten n rfl rfl
        have hleft := hu.left_hit
        exact ih hu.standing (by omega) (fun _ => by omega) (by omega)

theorem ends_repeatItems {skipping : Engine V Unit} {separator item : Engine V Match} {L : Nat}
    {c : Bool} (hskip : ∀ t : State V, Standing skip t → left t < L → Advances skip skipping t)
    (hsep : ∀ t : State V, Standing skip t → left t < L → Ends skip c separator t)
    (hitem : ∀ t : State V, Standing skip t → left t < L → Ends skip true item t)
    {rounds : Nat} {s : State V} (hs : Standing skip s) (hL : left s < L) (hr : left s + 1 ≤ rounds) :
    wp (Engine.repeatItems skipping separator item rounds) (fun _ t => t.scanner.skipRule = skip)
      (fun e _ => e ≠ .exhausted) s := by
  induction rounds generalizing s with
  | zero => omega
  | succ rounds ih =>
    unfold Engine.repeatItems
    simp only [wp_bind, Engine.wp_here]
    refine wp_mono (hskip s hs hL) (fun _ t ⟨ht, hkt⟩ => ?_) fun _ _ h => h
    have hlt := Onward.left_le ht
    refine wp_mono (hsep t (Onward.standing ht hkt) (by omega)) (fun m u hu => ?_) fun _ _ h => h
    cases m with
    | miss => exact hu.skipRule
    | hit n =>
      have hlu := hu.left_hit
      refine wp_then (hskip u hu.standing (by omega)) fun _ v ⟨hv, hkv⟩ => ?_
      have hlv := Onward.left_le hv
      refine wp_then (hitem v (Onward.standing hv hkv) (by omega)) fun m w hw => ?_
      cases m with
      | miss => exact hw.skipRule
      | hit n' =>
        have hn := hw.eaten n' rfl rfl
        have hlw := hw.left_hit
        exact ih hw.standing (by omega) (by omega)

/-- A match ends with the skip rule unchanged, on some input if it hit and should have, or it stops for another
reason than fuel. -/
def Passes (skip : Option RuleId) (consumes : Bool) (m : Engine V Match) (s : State V) : Prop :=
  wp m (fun m t => t.scanner.skipRule = skip ∧ ∀ n, m = .hit n → consumes = true → 1 ≤ n)
    (fun e _ => e ≠ .exhausted) s

section
variable {c : Bool} {s : State V}

theorem passes_then {α : Type} {m : Engine V α} {f : α → Engine V Match} {Q : α → State V → Prop}
    (h : wp m Q (fun e _ => e ≠ .exhausted) s) (hf : ∀ a t, Q a t → Passes skip c (f a) t) :
    Passes skip c (m >>= f) s :=
  wp_then h hf

theorem passes_here {f : Cursor → Engine V Match} (h : Passes skip c (f s.scanner.cursor) s) :
    Passes skip c (Engine.here >>= f) s :=
  (wp_bind _ _).2 h

theorem passes_moveTo {f : Unit → Engine V Match} {start : Cursor}
    (h : Passes skip c (f ()) { s with scanner := s.scanner.moveTo start }) :
    Passes skip c (Engine.moveTo start >>= f) s :=
  (wp_bind _ _).2 h

end

/-- Where the run of a pattern ends is known from the law of positions. -/
theorem ends_of_passes {rule : Rule V} {p : Pattern} {s : State V} {c : Bool} (hs : Standing skip s)
    (h : Passes skip c (p.run rules fuel (Engine.invoke rules fuel) rule) s) :
    Ends skip c (p.run rules fuel (Engine.invoke rules fuel) rule) s := by
  have hreach := (Disciplined.run rules fuel (Disciplined.invoke rules fuel) rule p).reached
    (Erases.run rules fuel (Erases.invoke rules fuel) rule p) hs.place
  exact wp_mono (wp_and hreach h) (fun m t ⟨hr, hk, he⟩ => ⟨hr, hk, he⟩) fun _ _ h => h.2

/-! ### Terminals -/

theorem passes_missed {s : State V} (hs : Standing skip s) {what : String} {c : Bool} :
    Passes skip c (Engine.missed what) s := by
  obtain ⟨_, _, hn⟩ := s.scanner.note_eq what
  rw [Passes, Engine.wp_missed, hn]
  exact ⟨hs.skipRule, nofun⟩

theorem passes_matchOne {s : State V} (hs : Standing skip s) (kind : CharKind) {c : Bool} :
    Passes skip c (Engine.matchOne kind) s := by
  simp only [Passes, Engine.matchOne, wp_bind, Engine.wp_here]
  split
  · next ch after hn =>
    split
    · refine ⟨hs.skipRule, ?_⟩
      rintro n ⟨⟩ -
      exact ch.utf8Size_pos
    · exact passes_missed hs
  · exact passes_missed hs

theorem passes_matchText {s : State V} (hs : Standing skip s) (literal : String) :
    Passes skip (literal.utf8ByteSize != 0) (Engine.matchText literal) s := by
  simp only [Passes, Engine.matchText, wp_bind, Engine.wp_here]
  split
  · refine ⟨hs.skipRule, ?_⟩
    rintro n ⟨⟩ hc
    exact Nat.pos_of_ne_zero (bne_iff_ne.1 hc)
  · exact passes_missed hs

theorem passes_matchKeyword {s : State V} (hs : Standing skip s) (word : String) :
    Passes skip (word.utf8ByteSize != 0) (Engine.matchKeyword word) s := by
  simp only [Passes, Engine.matchKeyword, wp_bind, Engine.wp_here]
  split
  · split
    · exact passes_missed hs
    · refine ⟨hs.skipRule, ?_⟩
      rintro n ⟨⟩ hc
      exact Nat.pos_of_ne_zero (bne_iff_ne.1 hc)
  · exact passes_missed hs

/-! ### Operators -/

section
variable {invoke : RuleId → Engine V Match} {rule : Rule V} {c c' : Bool} {s : State V}

theorem passes_keywords {selector : Pattern} (hs : Standing skip s) (words : List String)
    (h : Ends skip c (selector.run rules fuel invoke rule) s) :
    Passes skip c ((Pattern.keywords selector words).run rules fuel invoke rule) s := by
  refine passes_here (passes_then h fun m t ht => passes_here ?_)
  split
  · exact ⟨ht.skipRule, ht.eaten⟩
  · exact passes_moveTo (passes_missed (ht.back hs))

/-- What is skipped between two parts and given back counts for nothing: some input is taken if one part takes some. -/
theorem passes_seq {first second : Pattern} (hfirst : Ends skip c (first.run rules fuel invoke rule) s)
    (hskip : ∀ n t, Progressed skip c s (.hit n) t → Advances skip (Engine.skip invoke) t)
    (hsecond : ∀ n t u, Progressed skip c s (.hit n) t → Onward t u → u.scanner.skipRule = skip →
      Ends skip c' (second.run rules fuel invoke rule) u) :
    Passes skip (c || c') ((Pattern.seq first second).run rules fuel invoke rule) s := by
  refine passes_here (passes_then hfirst fun m t ht => ?_)
  cases m with
  | miss => exact ⟨ht.skipRule, nofun⟩
  | hit n =>
    refine passes_here (passes_then (hskip n t ht) fun _ u ⟨hu, hku⟩ => ?_)
    refine passes_then (hsecond n t u ht hu hku) fun m v hv => ?_
    have hends : t.scanner.offset = s.scanner.offset + n := ht.ends
    have hle := hu.le
    match m with
    | .miss => exact ⟨hv.skipRule, nofun⟩
    | .hit 0 =>
      refine ⟨hv.skipRule, ?_⟩
      rintro _ ⟨⟩ hc
      show 1 ≤ t.scanner.offset - s.scanner.offset
      rcases (Bool.or_eq_true _ _).mp hc with hc | hc
      · have hn := ht.eaten n rfl hc
        omega
      · have hn := hv.eaten 0 rfl hc
        omega
    | .hit (k + 1) =>
      have hends' : v.scanner.offset = u.scanner.offset + (k + 1) := hv.ends
      refine ⟨hv.skipRule, ?_⟩
      rintro _ ⟨⟩ -
      show 1 ≤ v.scanner.offset - s.scanner.offset
      omega

theorem passes_alt {first second : Pattern} (hfirst : Ends skip c (first.run rules fuel invoke rule) s)
    (hsecond : ∀ t, Progressed skip c s .miss t → Ends skip c' (second.run rules fuel invoke rule)
      { t with scanner := t.scanner.moveTo s.scanner.cursor }) :
    Passes skip (c && c') ((Pattern.alt first second).run rules fuel invoke rule) s := by
  refine passes_here (passes_then hfirst fun m t ht => ?_)
  cases m with
  | hit n => exact ⟨ht.skipRule, fun k hk hc => ht.eaten k hk (Bool.and_eq_true_iff.1 hc).1⟩
  | miss =>
    refine passes_moveTo (wp_mono (hsecond t ht) (fun m u hu => ?_) fun _ _ h => h)
    exact ⟨hu.skipRule, fun k hk hc => hu.eaten k hk (Bool.and_eq_true_iff.1 hc).2⟩

theorem passes_diff {subject excluded : Pattern} (hsubject : Ends skip c (subject.run rules fuel invoke rule) s)
    (hexcluded : ∀ n t, Progressed skip c s (.hit n) t → Ends skip c' (excluded.run rules fuel invoke rule)
      { t with scanner := t.scanner.moveTo s.scanner.cursor }) :
    Passes skip c ((Pattern.diff subject excluded).run rules fuel invoke rule) s := by
  refine passes_here (passes_then hsubject fun m t ht => ?_)
  cases m with
  | miss => exact passes_moveTo ⟨ht.skipRule, nofun⟩
  | hit n =>
    refine passes_here (passes_moveTo (passes_then (hexcluded n t ht) fun m u hu => ?_))
    split
    · exact passes_moveTo ⟨hu.skipRule, nofun⟩
    · exact passes_moveTo ⟨hu.skipRule, ht.eaten⟩

theorem passes_expect {subject : Pattern} (h : Ends skip c (subject.run rules fuel invoke rule) s) :
    Passes skip c ((Pattern.expect subject).run rules fuel invoke rule) s := by
  refine passes_then h fun m t ht => ?_
  cases m with
  | hit n => exact ⟨ht.skipRule, ht.eaten⟩
  | miss => exact nofun

theorem passes_runAction {action : String} {n : Nat} {t : State V} (hbound : ∃ f, rule.action? action = some f)
    (ht : Progressed skip c s (.hit n) t) :
    Passes skip c (Engine.runAction rule action s.scanner.cursor n) t := by
  obtain ⟨f, hf⟩ := hbound
  simp only [Passes, Engine.runAction, wp_bind, wp_get, hf, Engine.wp_setContext]
  rcases f t.context (Engine.matchedSince s.scanner.cursor t.scanner) with ⟨verdict, context⟩
  cases verdict with
  | pass => exact ⟨ht.skipRule, ht.eaten⟩
  | reject => exact ⟨ht.skipRule, nofun⟩
  | fail cause => exact nofun

theorem passes_performCall {call : Call} {id : RuleId} (hid : call.target = some id)
    (hcall : ∀ t, Stays s t → Ends skip c (invoke id) t) :
    Passes skip c (Engine.performCall rules invoke rule call) s := by
  refine passes_then (wp_mono (Still.passArguments rule call s) (fun _ _ h => h) fun _ _ h => h.1)
    fun target t ⟨htarget, ht⟩ => ?_
  rw [hid] at htarget
  cases htarget
  refine passes_then (hcall t ht) fun m u hu => ?_
  refine wp_mono (Still.endCall rules rule call id m u) (fun m' v ⟨hm, hv⟩ => ?_) fun _ _ h => h.1
  subst hm
  exact ⟨hv.skipRule.trans hu.skipRule, hu.eaten⟩

/-- A match that took some input and a loop after it are a match that took some input. -/
theorem passes_loop {loop : Engine V Unit} {n : Nat} {t : State V} (ht : Progressed skip c s (.hit n) t) (hn : 1 ≤ n)
    (hloop : wp loop (fun _ u => u.scanner.skipRule = skip) (fun e _ => e ≠ .exhausted) t)
    (hon : wp loop (fun _ => Onward t) (fun _ _ => True) t) :
    Passes skip c' (loop >>= fun _ => Engine.hitFrom s.scanner.cursor) t := by
  refine (wp_bind _ _).2 (wp_mono (wp_and hloop hon) (fun _ u h => ?_) fun _ _ h => h.1)
  rw [Engine.wp_hitFrom]
  refine ⟨h.1, fun k hk _ => ?_⟩
  have hk : u.scanner.offset - s.scanner.offset = k := Match.hit.inj hk
  have hends : t.scanner.offset = s.scanner.offset + n := ht.ends
  have hle := h.2.le
  omega

end

/-! ### Repetitions -/

section
variable {rule : Rule V} {c c' : Bool} {s : State V}

/-- Every round of a list, from its second item on, begins with less of the input left. -/
theorem passes_list {item separator : Pattern} (hs : (rules.size + 1) * (left s + 1) ≤ fuel)
    (hskip : ∀ t, Standing skip t → left t < left s → Advances skip (Engine.skip (Engine.invoke rules fuel)) t)
    (hitem : ∀ t, Standing skip t → left t ≤ left s →
      Ends skip true (item.run rules fuel (Engine.invoke rules fuel) rule) t)
    (hseparator : ∀ t, Standing skip t → left t < left s →
      Ends skip c (separator.run rules fuel (Engine.invoke rules fuel) rule) t) (hstanding : Standing skip s) :
    Passes skip c' ((Pattern.list item separator).run rules fuel (Engine.invoke rules fuel) rule) s := by
  refine passes_here (passes_then (hitem s hstanding (Nat.le_refl _)) fun m t ht => ?_)
  cases m with
  | miss => exact ⟨ht.skipRule, nofun⟩
  | hit n =>
    have hn := ht.eaten n rfl rfl
    have hlt := ht.left_hit
    have hloop := ends_repeatItems hskip hseparator (fun u hu hlu => hitem u hu (Nat.le_of_lt hlu)) ht.standing (by omega)
      (rounds_le (budget_mono hs (t := t) (by omega)))
    have hon := (Advancing.repeatItems (Advancing.skip (Disciplined.invoke rules fuel))
      (Disciplined.run rules fuel (Disciplined.invoke rules fuel) rule separator)
      (Disciplined.run rules fuel (Disciplined.invoke rules fuel) rule item) fuel).onward
      (Erases.repeatItems (Erases.skip (Erases.invoke rules fuel))
        (Erases.run rules fuel (Erases.invoke rules fuel) rule separator)
        (Erases.run rules fuel (Erases.invoke rules fuel) rule item) fuel) ht.standing.place
    exact passes_loop ht hn hloop hon

theorem passes_many {subject : Pattern} (hs : (rules.size + 1) * (left s + 1) ≤ fuel)
    (hskip : ∀ t, Standing skip t → left t < left s → Advances skip (Engine.skip (Engine.invoke rules fuel)) t)
    (hsubject : ∀ t, Standing skip t → left t ≤ left s →
      Ends skip true (subject.run rules fuel (Engine.invoke rules fuel) rule) t) (hstanding : Standing skip s) :
    Passes skip false ((Pattern.many subject).run rules fuel (Engine.invoke rules fuel) rule) s := by
  have hloop : wp (Engine.repeatBody _ _ fuel true) _ _ s :=
    ends_repeatBody hskip hsubject hstanding (Nat.le_refl _) nofun (rounds_le hs)
  exact passes_here (passes_then hloop fun _ t ht => ⟨ht, nofun⟩)

theorem passes_many1 {subject : Pattern} (hs : (rules.size + 1) * (left s + 1) ≤ fuel)
    (hskip : ∀ t, Standing skip t → left t < left s → Advances skip (Engine.skip (Engine.invoke rules fuel)) t)
    (hsubject : ∀ t, Standing skip t → left t ≤ left s →
      Ends skip true (subject.run rules fuel (Engine.invoke rules fuel) rule) t) (hstanding : Standing skip s) :
    Passes skip c ((Pattern.many1 subject).run rules fuel (Engine.invoke rules fuel) rule) s := by
  refine passes_here (passes_then (hsubject s hstanding (Nat.le_refl _)) fun m t ht => ?_)
  cases m with
  | miss => exact ⟨ht.skipRule, nofun⟩
  | hit n =>
    have hn := ht.eaten n rfl rfl
    have hlt := ht.left_hit
    have hloop : wp (Engine.repeatBody _ _ fuel false) _ _ t := ends_repeatBody hskip hsubject ht.standing (by omega)
      (fun _ => by omega) (rounds_le (budget_mono hs (t := t) (by omega)))
    have hon := (Advancing.repeatBody (Advancing.skip (Disciplined.invoke rules fuel))
      (Disciplined.run rules fuel (Disciplined.invoke rules fuel) rule subject) fuel false).onward
      (Erases.repeatBody (Erases.skip (Erases.invoke rules fuel))
        (Erases.run rules fuel (Erases.invoke rules fuel) rule subject) fuel false) ht.standing.place
    exact passes_loop ht hn hloop hon

end

/-! ### Every pattern -/

theorem leads_lt (hskip : ∀ id, skip = some id → id < rules.size) {rule : Rule V} {p : Pattern}
    (hl : p.Linked rules rule) {id : RuleId} (hid : id ∈ p.leads (eats rules) skip) :
    id < rules.size := by
  induction p with
  | seq a b ih₁ ih₂ =>
    simp only [Pattern.leads, List.mem_append] at hid
    rcases hid with hid | hid
    · exact ih₁ hl.1 hid
    split at hid
    · nomatch hid
    rcases List.mem_append.1 hid with hid | hid
    · exact hskip id (Option.mem_toList.1 hid)
    · exact ih₂ hl.2 hid
  | alt a b ih₁ ih₂ | diff a b ih₁ ih₂ =>
    rcases List.mem_append.1 hid with hid | hid
    · exact ih₁ hl.1 hid
    · exact ih₂ hl.2 hid
  | list _ _ ih _ => exact ih hl.1 hid
  | act _ _ ih => exact ih hl.2 hid
  | opt _ ih | many _ ih | many1 _ ih | expect _ ih | token _ ih | lookahead _ ih | notAhead _ ih
  | keywords _ _ ih => exact ih hl hid
  | call c =>
    obtain ⟨target, callee, ht, hc, _⟩ := hl
    simp only [Pattern.leads, ht, Option.toList_some, List.mem_singleton] at hid
    subst hid
    exact (Array.getElem?_eq_some_iff.1 hc).1
  | empty | one | text | keyword => nomatch hid

/-- A pattern ends if there is fuel for all rules that can lead it and, once some input is taken, for all
others. -/
theorem ends_run (hg : grounded rules skip = true) (hk : Invocable rules skip fuel) (rule : Rule V)
    {p : Pattern} (hl : p.Linked rules rule) (hp : p.guarded (eats rules) = true) {s : State V}
    (hs : Standing skip s) (hf : (rules.size + 1) * (left s + 1) ≤ fuel)
    (ha : ∀ id ∈ p.leads (eats rules) skip, Affords rules skip fuel s id) :
    Ends skip (p.consumes (eats rules)) (p.run rules fuel (Engine.invoke rules fuel) rule) s := by
  have hrange : ∀ id, skip = some id → id < rules.size := by
    rintro id rfl
    simp only [grounded, Bool.and_eq_true, Option.all_some, decide_eq_true_eq] at hg
    exact hg.2
  have skips : ∀ s : State V, (rules.size + 1) * (left s + 1) ≤ fuel → ∀ t, Standing skip t →
      left t < left s → Advances skip (Engine.skip (Engine.invoke rules fuel)) t :=
    fun s hf t ht hlt => advances_skip hk ht fun id hid => affords_of_lt hg (hrange id hid) hf hlt
  induction p generalizing s with
  | empty => exact ends_of_passes hs ⟨hs.skipRule, nofun⟩
  | one kind => exact ends_of_passes hs (passes_matchOne hs kind)
  | text literal => exact ends_of_passes hs (passes_matchText hs literal)
  | keyword word => exact ends_of_passes hs (passes_matchKeyword hs word)
  | keywords selector words ih => exact ends_of_passes hs (passes_keywords hs words (ih hl hp hs hf ha))
  | seq first second ih₁ ih₂ =>
    simp only [Pattern.guarded, Bool.and_eq_true] at hp
    simp only [Pattern.leads, List.mem_append] at ha
    -- Behind the first part there is fuel for skipping and for what leads the second one: either some input
    -- is taken, or they lead the whole.
    have hlead : ∀ n t, Progressed skip (first.consumes (eats rules)) s (.hit n) t →
        ∀ id ∈ skip.toList ++ second.leads (eats rules) skip, Affords rules skip fuel t id := by
      intro n t ht id hid
      have hlt := ht.left_hit
      by_cases hc : first.consumes (eats rules) = true
      · have hn := ht.eaten n rfl hc
        have hlt : id < rules.size := by
          rcases List.mem_append.1 hid with hid | hid
          · exact hrange id (Option.mem_toList.1 hid)
          · exact leads_lt hrange hl.2 hid
        exact affords_of_lt hg hlt hf (by omega)
      · exact (ha id (.inr (by rw [if_neg hc]; exact hid))).mono (by omega)
    refine ends_of_passes hs (passes_seq (ih₁ hl.1 hp.1 hs hf fun id h => ha id (.inl h)) (fun n t ht => ?_)
      fun n t u ht hu hku => ?_)
    · exact advances_skip hk ht.standing fun id hid => hlead n t ht id (List.mem_append_left _ (Option.mem_toList.2 hid))
    · have hlt := ht.left_hit
      have hlu := Onward.left_le hu
      exact ih₂ hl.2 hp.2 (Onward.standing hu hku) (budget_mono hf (by omega)) fun id hid =>
        (hlead n t ht id (List.mem_append_right _ hid)).mono hlu
  | alt first second ih₁ ih₂ =>
    simp only [Pattern.guarded, Bool.and_eq_true] at hp
    simp only [Pattern.leads, List.mem_append] at ha
    refine ends_of_passes hs (passes_alt (ih₁ hl.1 hp.1 hs hf fun id h => ha id (.inl h)) fun t ht => ?_)
    have hleft := ht.left_back
    exact ih₂ hl.2 hp.2 (ht.back hs) (by rw [hleft]; exact hf) fun id h =>
      (ha id (.inr h)).mono (Nat.le_of_eq hleft)
  | diff subject excluded ih₁ ih₂ =>
    simp only [Pattern.guarded, Bool.and_eq_true] at hp
    simp only [Pattern.leads, List.mem_append] at ha
    have hsubject := ih₁ hl.1 hp.1 hs hf fun id h => ha id (.inl h)
    have hexcluded : ∀ n t, Progressed skip (subject.consumes (eats rules)) s (.hit n) t →
        Ends skip (excluded.consumes (eats rules)) (excluded.run rules fuel (Engine.invoke rules fuel) rule)
          { t with scanner := t.scanner.moveTo s.scanner.cursor } := by
      intro n t ht
      have hleft := ht.left_back
      exact ih₂ hl.2 hp.2 (ht.back hs) (by rw [hleft]; exact hf) fun id h =>
        (ha id (.inr h)).mono (Nat.le_of_eq hleft)
    exact ends_of_passes hs (passes_diff hsubject hexcluded)
  | list item separator ih₁ ih₂ =>
    simp only [Pattern.guarded, Bool.and_eq_true] at hp
    have hitem : ∀ t, Standing skip t → left t ≤ left s → Ends skip true _ t := fun t ht hlt =>
      hp.1.1 ▸ ih₁ hl.1 hp.1.2 ht (budget_mono hf hlt) fun id hid => (ha id hid).mono hlt
    have hseparator : ∀ t, Standing skip t → left t < left s → Ends skip (separator.consumes (eats rules)) _ t :=
      fun t ht hlt => ih₂ hl.2 hp.2 ht (budget_mono hf (Nat.le_of_lt hlt)) fun id hid =>
        affords_of_lt hg (leads_lt hrange hl.2 hid) hf hlt
    exact ends_of_passes hs (passes_list hf (skips s hf) hitem hseparator hs)
  | opt subject ih =>
    refine ends_of_passes hs (passes_here (passes_then (ih hl hp hs hf ha) fun m t ht => ?_))
    cases m with
    | hit n => exact ⟨ht.skipRule, nofun⟩
    | miss => exact passes_moveTo ⟨ht.skipRule, nofun⟩
  | many subject ih =>
    simp only [Pattern.guarded, Bool.and_eq_true] at hp
    refine ends_of_passes hs (passes_many hf (skips s hf) (fun t ht hlt => ?_) hs)
    exact hp.1 ▸ ih hl hp.2 ht (budget_mono hf hlt) fun id hid => (ha id hid).mono hlt
  | many1 subject ih =>
    simp only [Pattern.guarded, Bool.and_eq_true] at hp
    refine ends_of_passes hs (passes_many1 hf (skips s hf) (fun t ht hlt => ?_) hs)
    exact hp.1 ▸ ih hl hp.2 ht (budget_mono hf hlt) fun id hid => (ha id hid).mono hlt
  | expect subject ih => exact ends_of_passes hs (passes_expect (ih hl hp hs hf ha))
  | token subject ih =>
    refine ends_of_passes hs ((Engine.wp_bracket _ _ _).2 ?_)
    exact wp_mono (ih (s := { s with scanner := s.scanner.beginToken }) hl hp ⟨hs.place, hs.skipRule⟩ hf ha)
      (fun m t ht => ⟨ht.skipRule, ht.eaten⟩) fun _ _ h => h
  | lookahead subject ih | notAhead subject ih =>
    refine ends_of_passes hs (passes_here (passes_then (ih hl hp hs hf ha) fun m t ht => ?_))
    exact passes_moveTo ⟨ht.skipRule, nofun⟩
  | act action subject ih =>
    refine ends_of_passes hs (passes_here (passes_then (ih hl.2 hp hs hf ha) fun m t ht => ?_))
    cases m with
    | miss => exact ⟨ht.skipRule, nofun⟩
    | hit n => exact passes_runAction hl.1 ht
  | call c =>
    obtain ⟨id, callee, hid, -⟩ := hl
    have hconsumes : (Pattern.call c).consumes (eats rules) = eats rules id := by simp [Pattern.consumes, hid]
    have hafford := ha id (by simp [Pattern.leads, hid])
    refine ends_of_passes hs ?_
    rw [hconsumes]
    refine passes_performCall hid fun t ht => ?_
    exact hk id t (hs.stays ht) (hafford.mono (Nat.le_of_eq (left_of_stays ht)))

theorem passes_matchRule {rule : Rule V} {body : Engine V Match} {c : Bool} {s : State V}
    (hbody : ∀ t, Stays s t → Ends skip c body t) :
    Passes skip c (Engine.matchRule rule body) s := by
  simp only [Passes, Engine.matchRule, wp_bind, wp_get, Engine.wp_attempt]
  refine wp_mono (Still.enter rule s) (fun _ t ⟨_, ht⟩ => ?_) fun _ _ h => h.1
  refine wp_mono (hbody t ht) (fun m u hu => ?_) fun e u he => ?_
  · refine wp_mono (Still.leave rule s (.ok m) u) (fun m' v ⟨hm, hv⟩ => ?_) fun e v ⟨he, _⟩ => ?_
    · cases hm
      exact ⟨hv.skipRule.trans hu.skipRule, hu.eaten⟩
    · exact he.resolve_left nofun
  · refine wp_mono (Still.leave rule s (.error e) u) (fun m v ⟨hm, _⟩ => nomatch hm) fun e' v ⟨he', _⟩ => ?_
    rcases he' with he' | he'
    · cases he'
      exact he
    · exact he'

/-- A rule that there is fuel for ends. -/
theorem invocable (hg : grounded rules skip = true)
    (hl : ∀ (id : RuleId) rule, rules[id]? = some rule → rule.definition.Linked rules rule) (fuel : Nat) :
    Invocable rules skip fuel := by
  induction fuel with
  | zero =>
    intro id s _ ha
    obtain ⟨depth, _, hf⟩ := ha
    have := Nat.mul_pos (Nat.succ_pos rules.size) (Nat.succ_pos (left s))
    simp only [Nat.succ_eq_add_one] at this
    omega
  | succ fuel ih =>
    intro id s hs ha
    obtain ⟨depth, hd, hf⟩ := ha
    have hreach := (Disciplined.invoke rules (fuel + 1) id).reached (Erases.invoke rules (fuel + 1) id)
      hs.place
    cases depth with
    | zero => exact absurd hd Bool.false_ne_true
    | succ depth =>
      unfold settlesWithin at hd
      split at hd
      · next rule hrule =>
        simp only [Bool.and_eq_true, List.all_eq_true] at hd
        have hbody : ∀ t, Stays s t → Ends skip (rule.definition.consumes (eats rules))
            (rule.definition.run rules fuel (Engine.invoke rules fuel) rule) t := by
          intro t ht
          have hleft := left_of_stays ht
          refine ends_run hg ih rule (hl id rule hrule) hd.1 (hs.stays ht) ?_ fun q hq => ?_
          · rw [hleft]
            omega
          · exact ⟨depth, hd.2 q hq, by rw [hleft]; omega⟩
        have hrun : wp (Engine.matchRule rule _) _ _ s := passes_matchRule hbody
        unfold Engine.invoke at hreach ⊢
        rw [hrule] at hreach ⊢
        refine wp_mono (wp_and hreach hrun) (fun m t h => ?_) fun _ _ h => h.2
        exact ⟨h.1, h.2.1, fun n hn hc => h.2.2 n hn (consumes_of_eats hrule hc)⟩
      · exact absurd hd Bool.false_ne_true

end

/-! ## Parses -/

section
variable {d : Domain V} {g : Grammar}

theorem fuelFor_le_fuelOf (d : Domain V) (source : String) :
    Engine.fuelFor d.rules.size (Text.byteLength source.toList) ≤ d.fuelOf source :=
  Nat.le_add_left _ _

/-- At the start there is fuel for every rule. -/
theorem affords_start (hg : grounded d.rules g.skip = true) {id : RuleId} (hid : id < d.rules.size)
    (source : String) {fuel : Nat} (hfuel : Engine.fuelFor d.rules.size (Text.byteLength source.toList) ≤ fuel)
    {s : State V}
    (hs : left s ≤ Text.byteLength source.toList) : Affords d.rules g.skip fuel s id := by
  simp only [grounded, Bool.and_eq_true, List.all_eq_true, List.mem_range] at hg
  refine ⟨d.rules.size + 1, hg.1 id hid, Nat.le_trans ?_ hfuel⟩
  unfold Engine.fuelFor
  calc
    _ ≤ (d.rules.size + 1) + (d.rules.size + 1) * (Text.byteLength source.toList + 1) :=
      Nat.add_le_add_left (Nat.mul_le_mul_left _ (Nat.succ_le_succ hs)) _
    _ = (d.rules.size + 1) * (Text.byteLength source.toList + 2) := by rw [Nat.add_comm, ← Nat.mul_succ]
    _ ≤ _ := Nat.mul_le_mul_right _ (by omega)

/-- The start rule ends on every input, whatever is skipped around it. -/
theorem ends_matchStart (hg : grounded d.rules g.skip = true)
    (hl : ∀ (id : RuleId) rule, d.rules[id]? = some rule → rule.definition.Linked d.rules rule)
    {start : RuleId} (hstart : start < d.rules.size) (source : String) (options : Options)
    (stack : Stack V) {fuel : Nat} (hfuel : Engine.fuelFor d.rules.size (Text.byteLength source.toList) ≤ fuel) :
    wp (Engine.matchStart (Engine.invoke d.rules fuel) start) (fun _ _ => True)
      (fun e _ => e ≠ .exhausted) (Domain.startState g source options stack) := by
  have hk := invocable hg hl fuel
  have hrange : ∀ id, g.skip = some id → id < d.rules.size := by
    intro id hid
    simp only [grounded, hid, Bool.and_eq_true, Option.all_some, decide_eq_true_eq] at hg
    exact hg.2
  have hskip : ∀ s : State V, Standing g.skip s → left s ≤ Text.byteLength source.toList →
      Advances g.skip (Engine.skip (Engine.invoke d.rules fuel)) s :=
    fun s hs hle => advances_skip hk hs fun id hid => affords_start hg (hrange id hid) source hfuel hle
  have hs : Standing g.skip (Domain.startState g source options stack) :=
    ⟨Scanner.new_whole_in _ _ _, rfl⟩
  have hle : left (Domain.startState g source options stack) ≤ Text.byteLength source.toList :=
    Nat.sub_le _ _
  refine wp_then (hskip _ hs hle) fun _ t ⟨ht, hkt⟩ => ?_
  have hlt := Onward.left_le ht
  refine wp_then (hk start t (Onward.standing ht hkt)
    (affords_start hg hstart source hfuel (Nat.le_trans hlt hle))) fun m u hu => ?_
  cases m with
  | miss => trivial
  | hit n =>
    have hlu := hu.left_hit
    exact wp_then (hskip u hu.standing (by omega)) fun _ _ _ => trivial

/-- So does the parse of all of the input. -/
theorem ends_runStart (hg : grounded d.rules g.skip = true)
    (hl : ∀ (id : RuleId) rule, d.rules[id]? = some rule → rule.definition.Linked d.rules rule)
    {start : RuleId} (hstart : start < d.rules.size) (rule : Rule V) (source : String) (options : Options)
    (stack : Stack V) (depth : Nat) {fuel : Nat}
    (hfuel : Engine.fuelFor d.rules.size (Text.byteLength source.toList) ≤ fuel) :
    wp (Engine.runStart (Engine.invoke d.rules fuel) start rule depth) (fun _ _ => True)
      (fun e _ => e ≠ .exhausted) (Domain.startState g source options stack) := by
  refine wp_then (ends_matchStart hg hl hstart source options stack hfuel) fun m t _ => ?_
  unfold Engine.endStart
  simp only [wp_bind, wp_get]
  split
  · exact nofun
  split
  · trivial
  split
  · simp only [wp_bind, Engine.wp_setStack]
    split
    · trivial
    · rw [Engine.wp_raiseInternal]
      exact nofun
  · rw [Engine.wp_raiseInternal]
    exact nofun

/-- A parse of a linked domain that is grounded for the skip rule of its grammar never uses up its
fuel. -/
theorem parseIn_ends (hd : d.Linked) (hg : grounded d.rules g.skip = true) (hmem : g ∈ d.grammars)
    (source : String) (options : Options) (args : List V) (session : Session V) :
    (d.parseIn g source options args session).1 ≠ .error .exhausted := by
  cases hstart : g.start with
  | none =>
    unfold Domain.parseIn
    rw [hstart]
    exact nofun
  | some start =>
    obtain ⟨rule, hrule⟩ := hd.start g hmem start hstart
    by_cases ha : args.length = rule.arity
    · rw [Domain.parseIn_eq hstart hrule source options ha]
      obtain ⟨hlt, _⟩ := Array.getElem?_eq_some_iff.1 hrule
      have hend := ends_runStart hg hd.rules hlt rule source options (session.stack.pushAll args)
        session.stack.size (fuelFor_le_fuelOf d source)
      intro hex
      exact wp_error hend (Prod.ext hex rfl) rfl
    · have hbind : (some start).bind d.rule? = some rule := hrule
      simp only [Domain.parseIn, hstart, hbind, ne_eq, ha, not_false_eq_true, if_true, reduceCtorEq,
        Except.error.injEq]

end

end Progress

end PegFront
