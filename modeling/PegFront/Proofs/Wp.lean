import PegFront.Peg.Engine

/-!
# Weakest preconditions

`wp m Q E s`: the computation `m`, run from the state `s`, ends with a value and a state that satisfy
`Q`, or stops with a reason and a state that satisfy `E`. Everything the engine does is a bind of a few
operations, and there is one lemma for each of them, so that a proof about the engine rewrites with
these and never looks at the monad.
-/

namespace PegFront

variable {σ α β : Type}

/-- Result and final state of a computation. -/
def outcome (m : ExceptT Stop (StateM σ) α) (s : σ) : Except Stop α × σ := m.run.run s

def wp (m : ExceptT Stop (StateM σ) α) (Q : α → σ → Prop) (E : Stop → σ → Prop) (s : σ) : Prop :=
  match outcome m s with
  | (.ok a, t) => Q a t
  | (.error e, t) => E e t

section
variable {Q Q' : α → σ → Prop} {E E' : Stop → σ → Prop} {s : σ}

theorem outcome_get : outcome (get : ExceptT Stop (StateM σ) σ) s = (.ok s, s) := rfl

theorem outcome_modify (f : σ → σ) :
    outcome (modify f : ExceptT Stop (StateM σ) Unit) s = (.ok (), f s) := rfl

theorem outcome_bind (m : ExceptT Stop (StateM σ) α) (f : α → ExceptT Stop (StateM σ) β) :
    outcome (m >>= f) s = match outcome m s with
      | (.ok a, t) => outcome (f a) t
      | (.error e, t) => (.error e, t) := by
  show (ExceptT.bindCont f (m.run.run s).1).run (m.run.run s).2 = _
  unfold outcome
  rcases m.run.run s with ⟨a | e, t⟩ <;> rfl

theorem outcome_attempt {V : Type} {s : State V} (m : Engine V α) :
    outcome (Engine.attempt m) s = (.ok (outcome m s).1, (outcome m s).2) := rfl

theorem wp_pure (a : α) : wp (pure a) Q E s ↔ Q a s := Iff.rfl

theorem wp_throw (e : Stop) : wp (throw e) Q E s ↔ E e s := Iff.rfl

theorem wp_get {Q : σ → σ → Prop} : wp get Q E s ↔ Q s s := Iff.rfl

theorem wp_bind {Q : β → σ → Prop} (m : ExceptT Stop (StateM σ) α)
    (f : α → ExceptT Stop (StateM σ) β) :
    wp (m >>= f) Q E s ↔ wp m (fun a t => wp (f a) Q E t) E s := by
  unfold wp
  rw [outcome_bind]
  rcases outcome m s with ⟨a | e, t⟩ <;> rfl

theorem wp_mono {m : ExceptT Stop (StateM σ) α} (h : wp m Q E s) (hQ : ∀ a t, Q a t → Q' a t)
    (hE : ∀ e t, E e t → E' e t) : wp m Q' E' s := by
  unfold wp at h ⊢
  generalize outcome m s = r at h ⊢
  rcases r with ⟨e | a, t⟩
  · exact hE e t h
  · exact hQ a t h

/-- Running on after `m`, whose errors end the run. -/
theorem wp_then {Q' : β → σ → Prop} {m : ExceptT Stop (StateM σ) α}
    {f : α → ExceptT Stop (StateM σ) β} (h : wp m Q E s) (hf : ∀ a t, Q a t → wp (f a) Q' E t) :
    wp (m >>= f) Q' E s :=
  (wp_bind m f).2 (wp_mono h hf fun _ _ h => h)

theorem wp_and {m : ExceptT Stop (StateM σ) α} (h : wp m Q E s) (h' : wp m Q' E' s) :
    wp m (fun a t => Q a t ∧ Q' a t) (fun e t => E e t ∧ E' e t) s := by
  unfold wp at h h' ⊢
  generalize outcome m s = r at h h' ⊢
  rcases r with ⟨e | a, t⟩ <;> exact ⟨h, h'⟩

theorem wp_ok {m : ExceptT Stop (StateM σ) α} {a : α} {t : σ} (h : wp m Q E s)
    (hm : outcome m s = (.ok a, t)) : Q a t := by
  simpa only [wp, hm] using h

theorem wp_error {m : ExceptT Stop (StateM σ) α} {e : Stop} {t : σ} (h : wp m Q E s)
    (hm : outcome m s = (.error e, t)) : E e t := by
  simpa only [wp, hm] using h

theorem wp_of_outcome {m : ExceptT Stop (StateM σ) α}
    (hQ : ∀ a t, outcome m s = (.ok a, t) → Q a t)
    (hE : ∀ e t, outcome m s = (.error e, t) → E e t) : wp m Q E s := by
  unfold wp
  rcases hm : outcome m s with ⟨e | a, t⟩
  · exact hE e t hm
  · exact hQ a t hm

end

/-! ## Notes and traces -/

namespace Scanner

theorem note_eq (s : Scanner) (what : String) :
    ∃ farthest expected, s.note what = { s with farthest, expected } := by
  unfold note; split
  · exact ⟨_, _, rfl⟩
  · split <;> exact ⟨_, _, rfl⟩

theorem record_eq (s : Scanner) (kind : TraceKind) (rule : String) (span : Span) (text : List Char) :
    ∃ trace, s.record kind rule span text = { s with trace } := by
  unfold record; split <;> exact ⟨_, rfl⟩

theorem enterRule_eq (s : Scanner) (rule : String) :
    ∃ trace, s.enterRule rule = { s with trace, ruleDepth := s.ruleDepth + 1 } := by
  obtain ⟨trace, h⟩ := s.record_eq .enter rule s.span s.cursor.rest
  exact ⟨trace, by unfold enterRule; rw [h]⟩

theorem leaveRule_eq (s : Scanner) (rule : String) (start : Cursor) (matched : Bool) :
    ∃ trace, s.leaveRule rule start matched = { s with trace, ruleDepth := s.ruleDepth - 1 } := by
  unfold leaveRule; split <;> exact record_eq ..

end Scanner

/-! ## Operations of the engine -/

namespace Engine

variable {V : Type} {s : State V} {E : Stop → State V → Prop}

theorem wp_here {Q : Cursor → State V → Prop} : wp here Q E s ↔ Q s.scanner.cursor s := Iff.rfl

theorem wp_onScanner {Q : Unit → State V → Prop} (f : Scanner → Scanner) :
    wp (onScanner f) Q E s ↔ Q () { s with scanner := f s.scanner } := Iff.rfl

theorem wp_moveTo {Q : Unit → State V → Prop} (c : Cursor) :
    wp (moveTo c) Q E s ↔ Q () { s with scanner := s.scanner.moveTo c } := Iff.rfl

theorem wp_setStack {Q : Unit → State V → Prop} (stack : Stack V) :
    wp (setStack stack) Q E s ↔ Q () { s with stack } := Iff.rfl

theorem wp_setContext {Q : Unit → State V → Prop} (context : Context V) :
    wp (setContext context) Q E s ↔ Q () { s with context } := Iff.rfl

theorem wp_missed {Q : Match → State V → Prop} (what : String) :
    wp (missed what) Q E s ↔ Q .miss { s with scanner := s.scanner.note what } := Iff.rfl

theorem wp_hitFrom {Q : Match → State V → Prop} (start : Cursor) :
    wp (hitFrom start) Q E s ↔ Q (.hit (s.scanner.offset - start.offset)) s := Iff.rfl

theorem wp_raise {Q : α → State V → Prop} (cause : Cause) (span : Span) :
    wp (raise cause span) Q E s ↔ E (.error (s.scanner.report cause span)) s := Iff.rfl

theorem wp_raiseInternal {Q : α → State V → Prop} (cause : Cause) (span : Span) :
    wp (raiseInternal cause span) Q E s ↔ E (.error (s.scanner.internalError cause span)) s := Iff.rfl

theorem wp_attempt {Q : Except Stop α → State V → Prop} (m : Engine V α) :
    wp (attempt m) Q E s ↔ wp m (fun a => Q (.ok a)) (fun e => Q (.error e)) s := by
  unfold wp
  rw [outcome_attempt]
  rcases outcome m s with ⟨e | a, t⟩ <;> rfl

theorem outcome_bracket (before after : Scanner → Scanner) (m : Engine V α) :
    outcome (bracket before after m) s =
      ((outcome m { s with scanner := before s.scanner }).1,
        { (outcome m { s with scanner := before s.scanner }).2 with
          scanner := after (outcome m { s with scanner := before s.scanner }).2.scanner }) := by
  unfold bracket
  rw [outcome_bind]
  show outcome (attempt m >>= _) _ = _
  rw [outcome_bind, outcome_attempt]
  rcases outcome m { s with scanner := before s.scanner } with ⟨e | a, t⟩ <;> rfl

theorem wp_bracket {Q : α → State V → Prop} (before after : Scanner → Scanner) (m : Engine V α) :
    wp (bracket before after m) Q E s ↔
      wp m (fun a t => Q a { t with scanner := after t.scanner })
        (fun e t => E e { t with scanner := after t.scanner })
        { s with scanner := before s.scanner } := by
  unfold wp
  rw [outcome_bracket]
  rcases outcome m { s with scanner := before s.scanner } with ⟨e | a, t⟩ <;> rfl

end Engine

end PegFront
