import PegFront.Peg.Session
import PegFront.Proofs.Place
import PegFront.Proofs.Typing
import PegFront.Proofs.Wp

/-!
# Runs on a displaced text

The same rules run on a text and on that text with something put before it. As long as the two runs stand at the same
place of the text, every step takes both to the same place again: a terminal sees what is left of the text, an action
sees the same text at spans that are further on, and what an error reports is further on as well (`Meets`). So the
second run ends as the first one does, with everything moved on, unless the first one uses up its fuel; the second
one may have more.

The only thing a run remembers of where it began is the farthest failure, which is at the very start as long as
nothing has failed. There the two runs agree although the starts are apart (`Noted`).
-/

namespace PegFront

variable {V α β γ δ : Type}

/-! ## Moving on -/

def Cursor.shift (n : Nat) (c : Cursor) : Cursor := ⟨c.offset + n, c.rest⟩

def Matched.shift (n : Nat) (m : Matched) : Matched := { m with span := m.span.shift n }

def Input.behind (front : List Char) (i : Input) : Input :=
  { i with text := front ++ i.text, stop := i.stop + Text.byteLength front }

def Bindings.mapValues (f : V → V) (bs : Bindings V) : Bindings V := bs.map fun b => (b.1, f b.2)

def Context.move (n : Nat) (move : V → V) (ctx : Context V) : Context V :=
  ⟨Bindings.mapValues move ctx.vars, ctx.value.map move, ctx.start + n⟩

def Stack.mapValues (f : V → V) (s : Stack V) : Stack V := ⟨s.values.map f⟩

theorem Bindings.mapValues_insert (f : V → V) (bs : Bindings V) (name : String) (v : V) :
    mapValues f (bs.insert name v) = (mapValues f bs).insert name (f v) := by
  induction bs with
  | nil => rfl
  | cons b bs ih =>
    simp only [insert, mapValues, List.map_cons]
    split
    · rfl
    · exact congrArg _ ih

theorem Context.move_enter (n : Nat) (f : V → V) (attributes : List Attribute) (args : List V) (start : Nat) :
    (Context.enter attributes args start).move n f = .enter attributes (args.map f) (start + n) := by
  have hfold : ∀ (bind : Bindings V → Attribute × V → Bindings V),
      (∀ bs p, Bindings.mapValues f (bind bs p) = bind (Bindings.mapValues f bs) (p.1, f p.2)) → ∀ ps bs,
      Bindings.mapValues f (List.foldl bind bs ps) =
        List.foldl bind (Bindings.mapValues f bs) (ps.map fun p => (p.1, f p.2)) := by
    intro bind hbind ps
    induction ps with
    | nil => exact fun _ => rfl
    | cons p ps ih =>
      intro bs
      rw [List.foldl_cons, ih, hbind]
      rfl
  simp only [move, enter, Option.map_none, Context.mk.injEq, and_true]
  rw [hfold _ (fun bs p => bs.mapValues_insert f p.1.name p.2), List.zip_map_right]
  rfl

section
variable (n : Nat) (c : Cursor)

theorem Cursor.shift_next? : (c.shift n).next? = c.next?.map fun r => (r.1, r.2.shift n) := by
  rcases c with ⟨offset, rest⟩
  cases rest with
  | nil => rfl
  | cons ch rest =>
    simp only [next?, shift, Option.map_some]
    rw [Nat.add_right_comm]

theorem Cursor.shift_after? (literal : List Char) :
    (c.shift n).after? literal = (c.after? literal).map (Cursor.shift n) := by
  induction literal generalizing c with
  | nil => simp [after?]
  | cons ch literal ih =>
    rcases c with ⟨offset, rest⟩
    cases rest with
    | nil => rfl
    | cons d rest =>
      simp only [after?, shift]
      split
      · rw [← ih]
        simp only [shift, Nat.add_right_comm]
      · rfl

theorem Cursor.shift_textTo (stop : Nat) : (c.shift n).textTo (stop + n) = c.textTo stop := by
  simp only [textTo, shift, Nat.add_sub_add_right]

end

theorem Input.behind_cursorAt (front : List Char) (i : Input) (offset : Nat) :
    ((i.behind front).cursorAt (offset + Text.byteLength front)).rest = (i.cursorAt offset).rest := by
  simp only [cursorAt, behind, Text.slice?_behind]

/-! ## Rules that move with their input -/

/-- The hooks of a rule do the same further on. -/
structure Rule.Moves (n : Nat) (move : V → V) (rule : Rule V) : Prop where
  action : ∀ {name f}, rule.action? name = some f → ∀ ctx m,
    f (ctx.move n move) (m.shift n) = ((f ctx m).1, (f ctx m).2.move n move)
  arguments : ∀ call ctx, rule.argumentsOf call (ctx.move n move) = (rule.argumentsOf call ctx).map move
  takeUp : ∀ label ctx v, rule.takeUp label (ctx.move n move) (move v) = (rule.takeUp label ctx v).move n move

/-- What is put before a text, the text, and what becomes of the values. -/
structure Displacement (V : Type) where
  front : List Char
  input : Input
  move : V → V

namespace Displacement

variable (D : Displacement V)

def distance : Nat := Text.byteLength D.front

/-- What was noted of failures, at the same places, or nothing yet. -/
def Noted (s s' : Scanner) : Prop :=
  s'.expected = s.expected ∧
    (s'.farthest = s.farthest + D.distance ∨ s.farthest = 0 ∧ s'.farthest = 0 ∧ s.expected = [])

/-- The states stand at the same place of the text. -/
structure Relates (C : Context V → Context V → Prop) (s s' : State V) : Prop where
  input : s.scanner.input = D.input
  input' : s'.scanner.input = D.input.behind D.front
  cursor : s'.scanner.cursor = s.scanner.cursor.shift D.distance
  skipRule : s'.scanner.skipRule = s.scanner.skipRule
  tokenDepth : s'.scanner.tokenDepth = s.scanner.tokenDepth
  skipping : s'.scanner.skipping = s.scanner.skipping
  noted : D.Noted s.scanner s'.scanner
  stack : s'.stack = s.stack.mapValues D.move
  context : C s.context s'.context

/-- The same error further on. -/
def Carries (e e' : ParseError) : Prop :=
  ∃ cause span help, e = { ParseError.located cause "parse" D.input.file D.input.text span with help } ∧
    e' = { ParseError.located cause "parse" D.input.file (D.front ++ D.input.text) (span.shift D.distance) with help }

/-- The second run ends as the first one does, unless that one uses up its fuel. -/
inductive Meets (C : Context V → Context V → Prop) (A : α → β → Prop) :
    Except Stop α × State V → Except Stop β × State V → Prop
  | ok {a b t t'} (h : A a b) (ht : D.Relates C t t') : Meets C A (.ok a, t) (.ok b, t')
  | error {e e' t t'} (h : D.Carries e e') : Meets C A (.error (.error e), t) (.error (.error e'), t')
  | exhausted {t o} : Meets C A (.error .exhausted, t) o

/-- The second computation does further on what the first one does. -/
def Tracks (C : Context V → Context V → Prop) (A : α → β → Prop) (m : Engine V α) (m' : Engine V β) : Prop :=
  ∀ s s', D.Relates C s s' → D.Meets C A (outcome m s) (outcome m' s')

end Displacement

open Displacement

variable {D : Displacement V} {C C' : Context V → Context V → Prop} {A : α → β → Prop} {B : γ → δ → Prop}
  {m : Engine V α} {m' : Engine V β} {s s' : State V}

/-! ## Scanners at the same place -/

theorem Scanner.note_farthest (s : Scanner) (what : String) :
    (s.note what).farthest = if s.skipping = true then s.farthest else max s.farthest s.offset := by
  unfold note
  cases s.skipping with
  | true => rfl
  | false =>
    simp only [Bool.false_or, decide_eq_true_eq, Bool.false_eq_true, if_false]
    split
    · omega
    · split <;> simp only [] <;> omega

theorem Scanner.note_expected (s : Scanner) (what : String) :
    (s.note what).expected = if s.skipping = true ∨ s.offset < s.farthest then s.expected
      else if s.farthest < s.offset then [what] else Text.insertSorted what s.expected := by
  unfold note
  simp only [Bool.or_eq_true, decide_eq_true_eq]
  split
  · rfl
  · split <;> rfl

/-- The scanner stands where it stood and has noted nothing. -/
structure Scanner.Stands (s t : Scanner) : Prop where
  input : t.input = s.input
  cursor : t.cursor = s.cursor
  skipRule : t.skipRule = s.skipRule
  farthest : t.farthest = s.farthest
  expected : t.expected = s.expected

namespace Displacement.Relates

theorem moveTo (h : D.Relates C s s') (c : Cursor) : D.Relates C { s with scanner := s.scanner.moveTo c }
    { s' with scanner := s'.scanner.moveTo (c.shift D.distance) } :=
  ⟨h.input, h.input', rfl, h.skipRule, h.tokenDepth, h.skipping, h.noted, h.stack, h.context⟩

theorem offset (h : D.Relates C s s') : s'.scanner.offset = s.scanner.offset + D.distance :=
  congrArg Cursor.offset h.cursor

theorem atEnd (h : D.Relates C s s') : s'.scanner.atEnd = s.scanner.atEnd := by
  simp only [Scanner.atEnd, h.input, h.input', h.offset, Input.behind, distance, Nat.add_le_add_iff_right]

theorem canSkip (h : D.Relates C s s') : s'.scanner.canSkip = s.scanner.canSkip := by
  simp only [Scanner.canSkip, h.skipRule, h.skipping, h.tokenDepth]

theorem spanFrom (h : D.Relates C s s') (start : Nat) :
    s'.scanner.spanFrom (start + D.distance) = (s.scanner.spanFrom start).shift D.distance := by
  simp only [Scanner.spanFrom, h.offset, h.input, h.input', Input.behind, Span.shift]

theorem span (h : D.Relates C s s') : s'.scanner.span = s.scanner.span.shift D.distance := by
  have := h.spanFrom s.scanner.offset
  rwa [← h.offset] at this

theorem matchedSince (h : D.Relates C s s') (start : Cursor) :
    Engine.matchedSince (start.shift D.distance) s'.scanner =
      (Engine.matchedSince start s.scanner).shift D.distance := by
  have hspan := h.spanFrom start.offset
  have htext := Cursor.shift_textTo D.distance start s.scanner.offset
  rw [← h.offset] at htext
  simp only [Engine.matchedSince, Matched.shift, htext, h.input, h.input', Input.behind]
  exact congrArg (Matched.mk _ · _) hspan

theorem foundAt (h : D.Relates C s s') (offset : Nat) :
    s'.scanner.foundAt (offset + D.distance) = s.scanner.foundAt offset := by
  simp only [Scanner.foundAt, h.input, h.input', distance, Input.behind_cursorAt]

theorem charSpanAt (h : D.Relates C s s') (offset : Nat) :
    s'.scanner.charSpanAt (offset + D.distance) = (s.scanner.charSpanAt offset).shift D.distance := by
  have hmin : min (offset + D.distance) (D.input.behind D.front).stop = min offset D.input.stop + D.distance := by
    simp only [Input.behind, distance]
    omega
  have hrest : ((D.input.behind D.front).cursorAt (min (offset + D.distance) (D.input.behind D.front).stop)).rest =
      (D.input.cursorAt (min offset D.input.stop)).rest := by
    rw [hmin]
    exact Input.behind_cursorAt D.front D.input _
  simp only [Scanner.charSpanAt, h.input, h.input', hrest]
  cases (D.input.cursorAt (min offset D.input.stop)).rest with
  | nil => rfl
  | cons ch _ =>
    simp only [Span.shift, Input.behind, Span.mk.injEq, true_and]
    omega

theorem reach (h : D.Relates C s s') : s'.scanner.reach = s.scanner.reach + D.distance := by
  simp only [Scanner.reach, h.offset]
  obtain ⟨-, hf | ⟨hf, hf', -⟩⟩ := h.noted <;> omega

theorem expectedThere (h : D.Relates C s s') : s'.scanner.expectedThere = s.scanner.expectedThere := by
  simp only [Scanner.expectedThere, h.offset]
  obtain ⟨he, hf | ⟨hf, hf', hnil⟩⟩ := h.noted
  · rw [he, hf]
    simp only [Nat.add_lt_add_iff_right]
  · rw [he, hnil]
    simp only [ite_self]

theorem note (h : D.Relates C s s') (what : String) : D.Relates C { s with scanner := s.scanner.note what }
    { s' with scanner := s'.scanner.note what } := by
  have hnoted : D.Noted (s.scanner.note what) (s'.scanner.note what) := by
    obtain ⟨he, hf⟩ := h.noted
    simp only [Noted, Scanner.note_farthest, Scanner.note_expected, h.skipping, h.offset]
    cases s.scanner.skipping with
    | true => exact ⟨he, hf⟩
    | false =>
      simp only [Bool.false_eq_true, if_false, false_or]
      rcases hf with hf | ⟨hf, hf', hnil⟩
      · rw [hf, he]
        simp only [Nat.add_lt_add_iff_right, true_and]
        omega
      · -- Nothing was noted yet, so the note is the first one in both.
        have hfirst : Text.insertSorted what [] = [what] := rfl
        rw [hf, hf', he, hnil]
        simp only [Nat.not_lt_zero, if_false, hfirst, ite_self, true_and]
        omega
  obtain ⟨f, e, hs⟩ := s.scanner.note_eq what
  obtain ⟨f', e', hs'⟩ := s'.scanner.note_eq what
  rw [hs, hs'] at hnoted ⊢
  exact ⟨h.input, h.input', h.cursor, h.skipRule, h.tokenDepth, h.skipping, hnoted, h.stack, h.context⟩

/-- Scanners that stand where they stood. -/
theorem stand {t t' : Scanner} (h : D.Relates C s s') (ht : s.scanner.Stands t) (ht' : s'.scanner.Stands t')
    (htoken : t'.tokenDepth = t.tokenDepth) (hskipping : t'.skipping = t.skipping) :
    D.Relates C { s with scanner := t } { s' with scanner := t' } := by
  refine ⟨ht.input.trans h.input, ht'.input.trans h.input', ?_, ?_, htoken, hskipping, ?_, h.stack, h.context⟩
  · rw [ht.cursor, ht'.cursor, h.cursor]
  · rw [ht.skipRule, ht'.skipRule, h.skipRule]
  · simp only [Noted, ht.farthest, ht'.farthest, ht.expected, ht'.expected]
    exact h.noted

theorem report (h : D.Relates C s s') (cause : Cause) (span : Span) :
    D.Carries (s.scanner.report cause span) (s'.scanner.report cause (span.shift D.distance)) := by
  refine ⟨cause, span, none, ?_, ?_⟩
  · rw [Scanner.report, h.input]
    rfl
  · rw [Scanner.report, h.input']
    rfl

theorem internalError (h : D.Relates C s s') (cause : Cause) (span : Span) :
    D.Carries (s.scanner.internalError cause span) (s'.scanner.internalError cause (span.shift D.distance)) := by
  refine ⟨cause, span, some ParseError.internalHelp, ?_, ?_⟩
  · rw [Scanner.internalError, Scanner.report, h.input]
    rfl
  · rw [Scanner.internalError, Scanner.report, h.input']
    rfl

theorem expectationFailure (h : D.Relates C s s') (expected : String) (offset : Nat) :
    D.Carries (s.scanner.expectationFailure expected offset)
      (s'.scanner.expectationFailure expected (offset + D.distance)) := by
  unfold Scanner.expectationFailure
  rw [h.foundAt, h.charSpanAt]
  exact h.report _ _

end Displacement.Relates

/-! ## Computations -/

namespace Displacement

theorem Meets.bind {f : α → Engine V γ} {f' : β → Engine V δ} (h : D.Meets C A (outcome m s) (outcome m' s'))
    (hf : ∀ a b t t', A a b → D.Relates C t t' → D.Meets C' B (outcome (f a) t) (outcome (f' b) t')) :
    D.Meets C' B (outcome (m >>= f) s) (outcome (m' >>= f') s') := by
  rw [outcome_bind, outcome_bind]
  generalize outcome m s = o at h
  generalize outcome m' s' = o' at h
  cases h with
  | ok h ht => exact hf _ _ _ _ h ht
  | error h => exact .error h
  | exhausted => exact .exhausted

theorem Meets.get {f f' : State V → Engine V α} {A : α → α → Prop}
    (h : D.Meets C A (outcome (f s) s) (outcome (f' s') s')) :
    D.Meets C A (outcome (get >>= f) s) (outcome (get >>= f') s') := h

theorem Meets.of_errors {e e' : ParseError} {o : Except Stop α × State V} {o' : Except Stop β × State V}
    (h : D.Carries e e') (ho : o.1 = .error (.error e)) (ho' : o'.1 = .error (.error e')) : D.Meets C A o o' := by
  obtain ⟨_, _⟩ := o
  obtain ⟨_, _⟩ := o'
  subst ho ho'
  exact .error h

theorem Meets.of_exhausted {o : Except Stop α × State V} {o' : Except Stop β × State V}
    (ho : o.1 = .error .exhausted) : D.Meets C A o o' := by
  obtain ⟨_, _⟩ := o
  subst ho
  exact .exhausted

/-- A computation that runs on after an error only to raise it again. -/
theorem Meets.attempt {k : Except Stop α → Engine V γ} {k' : Except Stop β → Engine V δ}
    (h : D.Meets C A (outcome m s) (outcome m' s'))
    (hk : ∀ a b t t', A a b → D.Relates C t t' → D.Meets C' B (outcome (k (.ok a)) t) (outcome (k' (.ok b)) t'))
    (he : ∀ e t, (outcome (k (.error e)) t).1 = .error e) (he' : ∀ e t, (outcome (k' (.error e)) t).1 = .error e) :
    D.Meets C' B (outcome (Engine.attempt m >>= k) s) (outcome (Engine.attempt m' >>= k') s') := by
  rw [outcome_bind, outcome_bind, outcome_attempt, outcome_attempt]
  generalize outcome m s = o at h
  generalize outcome m' s' = o' at h
  cases h with
  | ok h ht => exact hk _ _ _ _ h ht
  | error h => exact .of_errors h (he _ _) (he' _ _)
  | exhausted => exact .of_exhausted (he _ _)

namespace Tracks

theorem bind {f : α → Engine V γ} {f' : β → Engine V δ} (h : D.Tracks C A m m')
    (hf : ∀ a b, A a b → D.Tracks C B (f a) (f' b)) : D.Tracks C B (m >>= f) (m' >>= f') :=
  fun s s' hs => (h s s' hs).bind fun a b t t' hab ht => hf a b hab t t' ht

theorem pure {a : α} {b : β} (h : A a b) : D.Tracks C A (pure a) (pure b) := fun _ _ hs => .ok h hs

theorem get : D.Tracks C (D.Relates C) get get := fun _ _ hs => .ok hs hs

theorem here : D.Tracks C (fun c c' => c' = c.shift D.distance) Engine.here Engine.here :=
  fun _ _ hs => .ok hs.cursor hs

theorem moveTo {c c' : Cursor} (h : c' = c.shift D.distance) : D.Tracks C Eq (Engine.moveTo c) (Engine.moveTo c') := by
  subst h
  exact fun _ _ hs => .ok rfl (hs.moveTo c)

theorem missed (what : String) : D.Tracks C Eq (Engine.missed what) (Engine.missed what) :=
  fun _ _ hs => .ok rfl (hs.note what)

theorem hitFrom {c c' : Cursor} (h : c' = c.shift D.distance) :
    D.Tracks C Eq (Engine.hitFrom c) (Engine.hitFrom c') := by
  subst h
  intro s s' hs
  refine .ok (congrArg Match.hit ?_) hs
  simp only [hs.cursor, Cursor.shift, Nat.add_sub_add_right]

theorem bracket {before after : Scanner → Scanner}
    (hbefore : ∀ s s', D.Relates C s s' →
      D.Relates C { s with scanner := before s.scanner } { s' with scanner := before s'.scanner })
    (hafter : ∀ s s', D.Relates C s s' →
      D.Relates C { s with scanner := after s.scanner } { s' with scanner := after s'.scanner })
    (h : D.Tracks C A m m') : D.Tracks C A (Engine.bracket before after m) (Engine.bracket before after m') := by
  intro s s' hs
  have hm := h _ _ (hbefore s s' hs)
  rw [Engine.outcome_bracket, Engine.outcome_bracket]
  generalize outcome m _ = o at hm
  generalize outcome m' _ = o' at hm
  cases hm with
  | ok ha ht => exact .ok ha (hafter _ _ ht)
  | error he => exact .error he
  | exhausted => exact .exhausted

/-! ### Terminals -/

theorem matchOne (kind : CharKind) : D.Tracks C Eq (Engine.matchOne kind) (Engine.matchOne kind) := by
  refine bind here ?_
  rintro c _ rfl
  rw [Cursor.shift_next?]
  rcases c.next? with _ | ⟨ch, after⟩
  · exact missed _
  · dsimp only [Option.map_some]
    split
    · exact bind (moveTo rfl) fun _ _ _ => pure rfl
    · exact missed _

theorem matchText (literal : String) : D.Tracks C Eq (Engine.matchText literal) (Engine.matchText literal) := by
  refine bind here ?_
  rintro c _ rfl
  rw [Cursor.shift_after?]
  rcases c.after? literal.toList with _ | after
  · exact missed _
  · exact bind (moveTo rfl) fun _ _ _ => pure rfl

theorem matchKeyword (word : String) : D.Tracks C Eq (Engine.matchKeyword word) (Engine.matchKeyword word) := by
  refine bind here ?_
  rintro c _ rfl
  rw [Cursor.shift_after?]
  rcases c.after? word.toList with _ | after
  · exact missed _
  · -- Whether a word goes on does not depend on the place.
    have hnext : ∀ f : Char × Cursor → Bool, (∀ ch d, f (ch, d.shift D.distance) = f (ch, d)) →
        (after.shift D.distance).next?.any f = after.next?.any f := by
      intro f hf
      rw [Cursor.shift_next?]
      rcases after.next? with _ | ⟨ch, d⟩
      · rfl
      · exact hf ch d
    dsimp only [Option.map_some]
    rw [hnext _ fun _ _ => rfl]
    split
    · exact missed _
    · exact bind (moveTo rfl) fun _ _ _ => pure rfl

/-! ### Skipping and repetition -/

section
variable {invoke invoke' : RuleId → Engine V Match}

theorem skip (hk : ∀ id, D.Tracks C Eq (invoke id) (invoke' id)) :
    D.Tracks C Eq (Engine.skip invoke) (Engine.skip invoke') := by
  refine bind get fun s s' hs => ?_
  rw [hs.skipRule, hs.canSkip]
  split
  · exact pure rfl
  · next id hid =>
    split
    · intro t t' ht
      have hrun : D.Tracks C Eq (Engine.bracket (.setSkipping true) (.setSkipping false) (invoke id))
          (Engine.bracket (.setSkipping true) (.setSkipping false) (invoke' id)) :=
        bracket (fun _ _ h => h.stand ⟨rfl, rfl, rfl, rfl, rfl⟩ ⟨rfl, rfl, rfl, rfl, rfl⟩ h.tokenDepth rfl)
          (fun _ _ h => h.stand ⟨rfl, rfl, rfl, rfl, rfl⟩ ⟨rfl, rfl, rfl, rfl, rfl⟩ h.tokenDepth rfl) (hk id)
      refine (hrun t t' ht).attempt ?_ (fun _ _ => rfl) (fun _ _ => rfl)
      rintro r _ u u' rfl hu
      have hdropped : D.Relates C { u with stack := u.stack.truncate s.stack.size }
          { u' with stack := u'.stack.truncate s'.stack.size } := by
        refine ⟨hu.input, hu.input', hu.cursor, hu.skipRule, hu.tokenDepth, hu.skipping, hu.noted, ?_, hu.context⟩
        simp only [hu.stack, hs.stack, Stack.truncate, Stack.mapValues, Stack.size, List.length_map, List.map_drop]
      cases r with
      | miss => exact moveTo hs.cursor _ _ hdropped
      | hit n => exact .ok rfl hdropped
    · exact pure rfl

theorem repeatBody {skipping skipping' : Engine V Unit} {body body' : Engine V Match}
    (hs : D.Tracks C Eq skipping skipping') (hb : D.Tracks C Eq body body') {fuel fuel' : Nat}
    (hfuel : fuel ≤ fuel') (first : Bool) :
    D.Tracks C Eq (Engine.repeatBody skipping body fuel first) (Engine.repeatBody skipping' body' fuel' first) := by
  induction fuel generalizing fuel' first with
  | zero => exact fun _ _ _ => .exhausted
  | succ fuel ih =>
    obtain ⟨fuel', rfl⟩ : ∃ n, fuel' = n + 1 := ⟨fuel' - 1, by omega⟩
    refine bind get fun s s' h => ?_
    have hround : ∀ {next next' : Match → Engine V Unit}, next .miss = Engine.moveTo s.scanner.cursor →
        next' .miss = Engine.moveTo s'.scanner.cursor →
        (∀ n, next (.hit n) = Engine.repeatBody skipping body fuel false) →
        (∀ n, next' (.hit n) = Engine.repeatBody skipping' body' fuel' false) →
        D.Tracks C Eq (body >>= next) (body' >>= next') := by
      intro next next' hmiss hmiss' hhit hhit'
      refine bind hb ?_
      rintro r _ rfl
      cases r with
      | miss =>
        rw [hmiss, hmiss']
        exact moveTo h.cursor
      | hit n =>
        rw [hhit, hhit']
        exact ih (by omega) false
    rw [h.atEnd]
    split
    · exact pure rfl
    · cases first with
      | true => exact hround rfl rfl (fun _ => rfl) fun _ => rfl
      | false => exact bind hs fun _ _ _ => hround rfl rfl (fun _ => rfl) fun _ => rfl

theorem repeatItems {skipping skipping' : Engine V Unit} {separator separator' item item' : Engine V Match}
    (hs : D.Tracks C Eq skipping skipping') (hp : D.Tracks C Eq separator separator')
    (hi : D.Tracks C Eq item item') {fuel fuel' : Nat} (hfuel : fuel ≤ fuel') :
    D.Tracks C Eq (Engine.repeatItems skipping separator item fuel)
      (Engine.repeatItems skipping' separator' item' fuel') := by
  induction fuel generalizing fuel' with
  | zero => exact fun _ _ _ => .exhausted
  | succ fuel ih =>
    obtain ⟨fuel', rfl⟩ : ∃ n, fuel' = n + 1 := ⟨fuel' - 1, by omega⟩
    refine bind here fun c c' hc => bind hs fun _ _ _ => bind hp ?_
    rintro r _ rfl
    cases r with
    | miss => exact moveTo hc
    | hit n =>
      refine bind hs fun _ _ _ => bind hi ?_
      rintro r _ rfl
      cases r with
      | miss => exact moveTo hc
      | hit n => exact ih (by omega)

end

/-! ### Actions and calls -/

section
variable {rule : Rule V} {rules : Array (Rule V)} {invoke invoke' : RuleId → Engine V Match}

/-- The context of the second run is that of the first one, moved on. -/
abbrev Inside (D : Displacement V) : Context V → Context V → Prop := fun ctx ctx' => ctx' = ctx.move D.distance D.move

theorem raise {cause : Cause} {span : Span} (h : D.Relates C s s') :
    D.Meets C' A (outcome (Engine.raise cause span) s) (outcome (Engine.raise cause (span.shift D.distance)) s') :=
  .error (h.report cause span)

theorem raiseInternal {cause : Cause} {span : Span} (h : D.Relates C s s') :
    D.Meets C' A (outcome (Engine.raiseInternal cause span) s)
      (outcome (Engine.raiseInternal cause (span.shift D.distance)) s') :=
  .error (h.internalError cause span)

theorem setContext {ctx ctx' : Context V} (h : C' ctx ctx') (hs : D.Relates C s s') :
    D.Meets C' Eq (outcome (Engine.setContext ctx) s) (outcome (Engine.setContext ctx') s') :=
  .ok rfl ⟨hs.input, hs.input', hs.cursor, hs.skipRule, hs.tokenDepth, hs.skipping, hs.noted, hs.stack, h⟩

theorem setStack {stack stack' : Stack V} (h : stack' = stack.mapValues D.move) :
    D.Tracks C Eq (Engine.setStack stack) (Engine.setStack stack') := fun _ _ hs =>
  .ok rfl ⟨hs.input, hs.input', hs.cursor, hs.skipRule, hs.tokenDepth, hs.skipping, hs.noted, h, hs.context⟩

theorem runAction (hr : rule.Moves D.distance D.move) (action : String) {start start' : Cursor}
    (hstart : start' = start.shift D.distance) (length : Nat) :
    D.Tracks (Inside D) Eq (Engine.runAction rule action start length)
      (Engine.runAction rule action start' length) := by
  subst hstart
  refine bind get fun s s' hs => ?_
  dsimp only
  rw [hs.matchedSince]
  split
  · exact fun _ _ => raiseInternal
  · next f hf =>
    have hact := hr.action hf s.context (Engine.matchedSince start s.scanner)
    rw [hs.context, hact]
    rcases f s.context (Engine.matchedSince start s.scanner) with ⟨verdict, ctx⟩
    refine bind (fun _ _ => setContext rfl) fun _ _ _ => ?_
    cases verdict with
    | pass => exact pure rfl
    | reject => exact bind (moveTo rfl) fun _ _ _ => pure rfl
    | fail cause => exact fun _ _ => raise

theorem passArguments (hr : rule.Moves D.distance D.move) (call : Call) :
    D.Tracks (Inside D) Eq (Engine.passArguments rule call) (Engine.passArguments rule call) := by
  refine bind get fun s s' hs => ?_
  rw [hs.span]
  split
  · exact fun _ _ => raiseInternal
  · rw [hs.context, hr.arguments]
    dsimp only
    rw [List.length_map]
    split
    · exact fun _ _ => raiseInternal
    · refine bind (setStack ?_) fun _ _ _ => pure rfl
      simp only [hs.stack, Stack.pushAll, Stack.mapValues, List.map_append, List.map_reverse]

theorem takeUpValue (hr : rule.Moves D.distance D.move) (call : Call) (callee : Rule V) :
    D.Tracks (Inside D) Eq (Engine.takeUpValue rule call callee) (Engine.takeUpValue rule call callee) := by
  unfold Engine.takeUpValue
  split
  · refine bind get fun s s' hs => ?_
    have hpop : s'.stack.pop? = s.stack.pop?.map fun r => (D.move r.1, r.2.mapValues D.move) := by
      rw [hs.stack]
      rcases s.stack with ⟨_ | ⟨v, values⟩⟩ <;> rfl
    rw [hpop, hs.span]
    rcases s.stack.pop? with _ | ⟨v, stack⟩
    · exact fun _ _ => raiseInternal
    · refine bind (setStack rfl) fun _ _ _ => ?_
      have htake := hr.takeUp call.label s.context v
      rw [← hs.context] at htake
      exact fun _ _ ht => setContext htake ht
  · exact pure rfl

theorem endCall (hr : rule.Moves D.distance D.move) (call : Call) (target : RuleId) (r : Match) :
    D.Tracks (Inside D) Eq (Engine.endCall rules rule call target r) (Engine.endCall rules rule call target r) := by
  unfold Engine.endCall
  split
  · exact bind (takeUpValue hr call _) fun _ _ _ => pure rfl
  · exact pure rfl

theorem performCall (hr : rule.Moves D.distance D.move) (hk : ∀ id, D.Tracks (Inside D) Eq (invoke id) (invoke' id))
    (call : Call) :
    D.Tracks (Inside D) Eq (Engine.performCall rules invoke rule call) (Engine.performCall rules invoke' rule call) := by
  refine bind (passArguments hr call) ?_
  rintro id _ rfl
  refine bind (hk id) ?_
  rintro r _ rfl
  exact endCall hr call id r

/-! ### Patterns and rules -/

/-- A pattern runs further on as it does here. -/
theorem run (hr : rule.Moves D.distance D.move) (hk : ∀ id, D.Tracks (Inside D) Eq (invoke id) (invoke' id))
    {fuel fuel' : Nat} (hfuel : fuel ≤ fuel') (p : Pattern) :
    D.Tracks (Inside D) Eq (p.run rules fuel invoke rule) (p.run rules fuel' invoke' rule) := by
  induction p with
  | empty => exact pure rfl
  | one kind => exact matchOne kind
  | text literal => exact matchText literal
  | keyword word => exact matchKeyword word
  | keywords selector words ih =>
    refine bind here ?_
    rintro c _ rfl
    refine bind ih ?_
    rintro r _ rfl
    refine bind here ?_
    rintro d _ rfl
    rw [show (d.shift D.distance).offset = d.offset + D.distance from rfl, Cursor.shift_textTo]
    split
    · exact pure rfl
    · exact bind (moveTo rfl) fun _ _ _ => missed _
  | seq first second ih₁ ih₂ =>
    refine bind here ?_
    rintro c _ rfl
    refine bind ih₁ ?_
    rintro r _ rfl
    cases r with
    | miss => exact pure rfl
    | hit n =>
      refine bind here ?_
      rintro d _ rfl
      refine bind (skip hk) fun _ _ _ => bind ih₂ ?_
      rintro r _ rfl
      rcases r with (_ | n) | _
      · exact bind (moveTo rfl) fun _ _ _ => hitFrom rfl
      · exact hitFrom rfl
      · exact bind (moveTo rfl) fun _ _ _ => pure rfl
  | alt first second ih₁ ih₂ =>
    refine bind here ?_
    rintro c _ rfl
    refine bind ih₁ ?_
    rintro r _ rfl
    cases r with
    | hit n => exact pure rfl
    | miss => exact bind (moveTo rfl) fun _ _ _ => ih₂
  | diff subject excluded ih₁ ih₂ =>
    refine bind here ?_
    rintro c _ rfl
    refine bind ih₁ ?_
    rintro r _ rfl
    cases r with
    | miss => exact bind (moveTo rfl) fun _ _ _ => pure rfl
    | hit n =>
      refine bind here ?_
      rintro d _ rfl
      refine bind (moveTo rfl) fun _ _ _ => bind ih₂ ?_
      rintro r _ rfl
      split
      · exact bind (moveTo rfl) fun _ _ _ => pure rfl
      · exact bind (moveTo rfl) fun _ _ _ => pure rfl
  | list item separator ih₁ ih₂ =>
    refine bind here ?_
    rintro c _ rfl
    refine bind ih₁ ?_
    rintro r _ rfl
    cases r with
    | miss => exact pure rfl
    | hit n => exact bind (repeatItems (skip hk) ih₂ ih₁ hfuel) fun _ _ _ => hitFrom rfl
  | opt subject ih =>
    refine bind here ?_
    rintro c _ rfl
    refine bind ih ?_
    rintro r _ rfl
    cases r with
    | hit n => exact pure rfl
    | miss => exact bind (moveTo rfl) fun _ _ _ => pure rfl
  | many subject ih =>
    refine bind here ?_
    rintro c _ rfl
    exact bind (repeatBody (skip hk) ih hfuel true) fun _ _ _ => hitFrom rfl
  | many1 subject ih =>
    refine bind here ?_
    rintro c _ rfl
    refine bind ih ?_
    rintro r _ rfl
    cases r with
    | miss => exact pure rfl
    | hit n => exact bind (repeatBody (skip hk) ih hfuel false) fun _ _ _ => hitFrom rfl
  | expect subject ih =>
    refine bind ih ?_
    rintro r _ rfl
    cases r with
    | hit n => exact pure rfl
    | miss =>
      refine bind get fun s s' hs => ?_
      rw [hs.offset]
      exact fun _ _ _ => .error (hs.expectationFailure _ _)
  | token subject ih =>
    refine bracket (fun _ _ h => h.stand ⟨rfl, rfl, rfl, rfl, rfl⟩ ⟨rfl, rfl, rfl, rfl, rfl⟩ ?_ h.skipping)
      (fun _ _ h => h.stand ⟨rfl, rfl, rfl, rfl, rfl⟩ ⟨rfl, rfl, rfl, rfl, rfl⟩ ?_ h.skipping) ih
    · exact congrArg (· + 1) h.tokenDepth
    · exact congrArg (· - 1) h.tokenDepth
  | lookahead subject ih =>
    refine bind here ?_
    rintro c _ rfl
    refine bind ih ?_
    rintro r _ rfl
    exact bind (moveTo rfl) fun _ _ _ => pure rfl
  | notAhead subject ih =>
    refine bind here ?_
    rintro c _ rfl
    refine bind ih ?_
    rintro r _ rfl
    exact bind (moveTo rfl) fun _ _ _ => pure rfl
  | act action subject ih =>
    refine bind here ?_
    rintro c _ rfl
    refine bind ih ?_
    rintro r _ rfl
    cases r with
    | miss => exact pure rfl
    | hit n => exact runAction hr action rfl n
  | call c => exact performCall hr hk c

theorem pushValue (rule : Rule V) {start start' : Cursor} (hstart : start' = start.shift D.distance) :
    D.Tracks (Inside D) Eq (Engine.pushValue rule start) (Engine.pushValue rule start') := by
  subst hstart
  unfold Engine.pushValue
  split
  · refine bind get fun s s' hs => ?_
    rw [show s'.context.value = s.context.value.map D.move from congrArg Context.value hs.context]
    cases s.context.value with
    | some v => exact setStack (congrArg (·.push (D.move v)) hs.stack)
    | none =>
      show D.Tracks _ _ _ (Engine.raiseInternal _ (s'.scanner.spanFrom (start.offset + D.distance)))
      rw [hs.spanFrom]
      exact fun _ _ => raiseInternal
  · exact pure rfl

/-- A rule that is entered starts a context further on, whatever the contexts of its callers are. -/
theorem enter (rule : Rule V) :
    ∀ s s', D.Relates C s s' → D.Meets (Inside D) Eq (outcome (Engine.enter rule) s) (outcome (Engine.enter rule) s') := by
  intro s s' hs
  have hpop : s'.stack.popN? rule.arity =
      (s.stack.popN? rule.arity).map fun r => (r.1.map D.move, r.2.mapValues D.move) := by
    simp only [hs.stack, Stack.popN?, Stack.mapValues, List.length_map]
    split
    · simp only [Option.map_some, List.map_reverse, List.map_take, List.map_drop]
    · rfl
  have hsize : s'.stack.size = s.stack.size := by simp only [hs.stack, Stack.mapValues, Stack.size, List.length_map]
  refine Meets.get ?_
  rw [hpop, hsize, hs.span]
  rcases s.stack.popN? rule.arity with _ | ⟨args, stack⟩
  · exact raiseInternal hs
  · refine (setStack rfl s s' hs).bind fun _ _ t t' _ ht => ?_
    have hctx : Inside D (.enter rule.attributes args s.scanner.offset)
        (.enter rule.attributes (args.map D.move) s'.scanner.offset) := by
      rw [Inside, Context.move_enter, hs.offset]
    refine (setContext hctx ht).bind fun _ _ u u' _ hu => ?_
    obtain ⟨trace, h⟩ := u.scanner.enterRule_eq rule.qualifiedName
    obtain ⟨trace', h'⟩ := u'.scanner.enterRule_eq rule.qualifiedName
    show D.Meets _ _ (.ok (), { u with scanner := u.scanner.enterRule _ })
      (.ok (), { u' with scanner := u'.scanner.enterRule _ })
    rw [h, h']
    exact .ok rfl (hu.stand ⟨rfl, rfl, rfl, rfl, rfl⟩ ⟨rfl, rfl, rfl, rfl, rfl⟩ hu.tokenDepth hu.skipping)

theorem leave (rule : Rule V) (hs : D.Relates C s s') (r : Match) {t t' : State V} (ht : D.Relates (Inside D) t t') :
    D.Meets C Eq (outcome (Engine.leave rule s (.ok r)) t) (outcome (Engine.leave rule s' (.ok r)) t') := by
  have hscanner : ∀ matched, D.Tracks (Inside D) Eq
      (Engine.onScanner (·.leaveRule rule.qualifiedName s.scanner.cursor matched))
      (Engine.onScanner (·.leaveRule rule.qualifiedName s'.scanner.cursor matched)) := by
    intro matched u u' hu
    obtain ⟨trace, h⟩ := u.scanner.leaveRule_eq rule.qualifiedName s.scanner.cursor matched
    obtain ⟨trace', h'⟩ := u'.scanner.leaveRule_eq rule.qualifiedName s'.scanner.cursor matched
    show D.Meets _ _ (.ok (), { u with scanner := u.scanner.leaveRule _ _ _ })
      (.ok (), { u' with scanner := u'.scanner.leaveRule _ _ _ })
    rw [h, h']
    exact .ok rfl (hu.stand ⟨rfl, rfl, rfl, rfl, rfl⟩ ⟨rfl, rfl, rfl, rfl, rfl⟩ hu.tokenDepth hu.skipping)
  refine (hscanner _ t t' ht).bind fun _ _ u u' _ hu => ?_
  cases r with
  | miss => exact (setContext hs.context hu).bind fun _ _ _ _ _ hv => .ok rfl hv
  | hit n =>
    refine (pushValue rule hs.cursor u u' hu).bind fun _ _ v v' _ hv => ?_
    exact (setContext hs.context hv).bind fun _ _ _ _ _ hw => .ok rfl hw

theorem matchRule (rule : Rule V) {body body' : Engine V Match} (hb : D.Tracks (Inside D) Eq body body') :
    D.Tracks C Eq (Engine.matchRule rule body) (Engine.matchRule rule body') := by
  intro s s' hs
  refine Meets.get ((enter rule s s' hs).bind fun _ _ t t' _ ht => ?_)
  refine (hb t t' ht).attempt ?_ (fun _ _ => rfl) (fun _ _ => rfl)
  rintro r _ u u' rfl hu
  exact leave rule hs r hu

end

/-- So does a rule, unless the first run uses up its fuel. -/
theorem invoke {rules : Array (Rule V)}
    (hr : ∀ (id : RuleId) rule, rules[id]? = some rule → rule.Moves D.distance D.move) {fuel fuel' : Nat}
    (hfuel : fuel ≤ fuel') (C : Context V → Context V → Prop) (id : RuleId) :
    D.Tracks C Eq (Engine.invoke rules fuel id) (Engine.invoke rules fuel' id) := by
  induction fuel generalizing fuel' C id with
  | zero => exact fun _ _ _ => .exhausted
  | succ fuel ih =>
    obtain ⟨fuel', rfl⟩ : ∃ n, fuel' = n + 1 := ⟨fuel' - 1, by omega⟩
    unfold Engine.invoke
    split
    · exact fun _ _ _ => .exhausted
    · next rule hrule => exact matchRule rule (run (hr id rule hrule) (ih (by omega) _) (by omega) _)

/-! ### Parses -/

section
variable {invoke invoke' : RuleId → Engine V Match}

theorem endStart (rule : Rule V) (depth : Nat) (r : Match) :
    D.Tracks C (fun v v' => v' = v.map D.move) (Engine.endStart rule depth r) (Engine.endStart rule depth r) := by
  refine bind get fun s s' hs => ?_
  have hincomplete : D.Carries (Engine.incomplete s.scanner rule) (Engine.incomplete s'.scanner rule) := by
    obtain ⟨cause, span, _, he, he'⟩ := hs.expectationFailure rule.name s.scanner.reach
    refine ⟨cause, span, Engine.expectationHelp s.scanner.expectedThere, ?_, ?_⟩
    · rw [Engine.incomplete, he]
    · rw [Engine.incomplete, hs.reach, he', hs.expectedThere]
  have hpop : s'.stack.pop? = s.stack.pop?.map fun r => (D.move r.1, r.2.mapValues D.move) := by
    rw [hs.stack]
    rcases s.stack with ⟨_ | ⟨v, values⟩⟩ <;> rfl
  rw [hs.atEnd, hpop, hs.span]
  dsimp only
  split
  · exact fun _ _ _ => .error hincomplete
  split
  · exact pure rfl
  rcases s.stack.pop? with _ | ⟨v, stack⟩
  · exact fun _ _ => raiseInternal
  · refine bind (setStack rfl) fun _ _ _ => ?_
    rw [show (stack.mapValues D.move).size = stack.size from List.length_map _]
    split
    · exact pure rfl
    · exact fun _ _ => raiseInternal

/-- Runs that stand at the same place once something is skipped before the start rule. -/
theorem runStart (hk : ∀ id, D.Tracks C Eq (invoke id) (invoke' id)) (id : RuleId) (rule : Rule V) (depth : Nat)
    (h : D.Meets C Eq (outcome (Engine.skip invoke) s) (outcome (Engine.skip invoke') s')) :
    D.Meets C (fun v v' => v' = v.map D.move) (outcome (Engine.runStart invoke id rule depth) s)
      (outcome (Engine.runStart invoke' id rule depth) s') := by
  have hmatch : D.Meets C Eq (outcome (Engine.matchStart invoke id) s) (outcome (Engine.matchStart invoke' id) s') := by
    refine h.bind fun _ _ t t' _ ht => bind (hk id) ?_ t t' ht
    rintro r _ rfl
    dsimp only
    split
    · exact bind (skip hk) fun _ _ _ => pure rfl
    · exact pure rfl
  refine hmatch.bind ?_
  rintro r _ t t' rfl ht
  exact endStart rule depth r t t' ht

end

end Tracks

end Displacement

/-! ## More fuel -/

theorem Context.move_zero (ctx : Context V) : ctx.move 0 id = ctx := by
  simp [move, Bindings.mapValues]

theorem Rule.moves_zero (rule : Rule V) : rule.Moves 0 id where
  action := fun _ _ _ => by simp only [Context.move_zero]; rfl
  arguments := fun _ _ => by simp only [Context.move_zero, List.map_id]
  takeUp := fun _ _ _ => by simp only [Context.move_zero, id_eq]

theorem Displacement.Carries.eq {D : Displacement V} (hd : D.front = []) {e e' : ParseError} (h : D.Carries e e') :
    e' = e := by
  obtain ⟨cause, span, help, rfl, rfl⟩ := h
  simp [Displacement.distance, hd, Span.shift, Text.byteLength]

/-- More fuel changes nothing once a parse has an answer. -/
theorem Domain.runStart_fuel (d : Domain V) (g : Grammar) (start : RuleId) (rule : Rule V) (depth : Nat)
    (source : String) (options : Options) (stack : Stack V) {fuel fuel' : Nat} (hfuel : fuel ≤ fuel')
    (hends : (outcome (Engine.runStart (Engine.invoke d.rules fuel) start rule depth)
      (Domain.startState g source options stack)).1 ≠ .error .exhausted) :
    (outcome (Engine.runStart (Engine.invoke d.rules fuel') start rule depth)
        (Domain.startState g source options stack)).1 =
      (outcome (Engine.runStart (Engine.invoke d.rules fuel) start rule depth)
        (Domain.startState g source options stack)).1 := by
  let D : Displacement V := ⟨[], .whole source.toList options.fileIndex options.file, id⟩
  have hk : ∀ id, D.Tracks Eq Eq (Engine.invoke d.rules fuel id) (Engine.invoke d.rules fuel' id) :=
    fun id => Tracks.invoke (D := D) (fun _ rule _ => rule.moves_zero) hfuel Eq id
  have hs : D.Relates Eq (Domain.startState g source options stack) (Domain.startState g source options stack) := by
    refine ⟨rfl, rfl, rfl, rfl, rfl, rfl, ⟨rfl, .inl rfl⟩, ?_, rfl⟩
    simp [Stack.mapValues, D]
  have hrun := Tracks.runStart hk start rule depth (Tracks.skip hk _ _ hs)
  generalize outcome (Engine.runStart (Engine.invoke d.rules fuel) start rule depth) _ = o at hrun hends
  generalize outcome (Engine.runStart (Engine.invoke d.rules fuel') start rule depth) _ = o' at hrun
  cases hrun with
  | ok h _ => simp [h, D]
  | error h => rw [h.eq rfl]
  | exhausted => exact absurd rfl hends

end PegFront
