import PegFront.Peg.Pattern
import PegFront.Proofs.CharSets

/-!
# Blanks and comments

What is skipped between two tokens, told as a function on texts: `afterGap` passes over blanks and comments and
gives what is left, or nothing if a comment is not closed. A text is a `Gap` if it is passed over whatever comes
next, as long as that is `Solid` and begins neither a blank nor a comment.
-/

namespace PegFront.Cminor

/-! ## Passing over a gap -/

/-- Where a gap is: between comments, in the rest of a line, or in a comment that must be closed. -/
inductive GapMode where
  | code
  | line
  | block
deriving DecidableEq, Repr

/-- What is left of a text after the blanks and comments at its start, if these are closed. -/
def passGap : GapMode → List Char → Option (List Char)
  | .code, '/' :: '/' :: cs => passGap .line cs
  | .code, '/' :: '*' :: cs => passGap .block cs
  | .code, c :: cs => if Text.isBlank c then passGap .code cs else some (c :: cs)
  | .code, [] => some []
  | .line, c :: cs => if c = '\n' || c = '\r' then passGap .code cs else passGap .line cs
  | .line, [] => some []
  | .block, '*' :: '/' :: cs => passGap .code cs
  | .block, _ :: cs => passGap .block cs
  | .block, [] => none

def afterGap (t : List Char) : Option (List Char) := passGap .code t

/-- No blank and no comment begins here. -/
def Solid (t : List Char) : Prop := afterGap t = some t

instance (t : List Char) : Decidable (Solid t) := inferInstanceAs (Decidable (_ = _))

/-- A text that is passed over before everything solid. -/
def Gap (g : List Char) : Prop := ∀ t, Solid t → afterGap (g ++ t) = some t

theorem Gap.nil : Gap [] := fun _ h => h

theorem solid_nil : Solid [] := rfl

theorem passGap_cons {c : Char} {t : List Char} (h : c = '/' → ∀ d ∈ t.head?, d ≠ '/' ∧ d ≠ '*') :
    passGap .code (c :: t) = if Text.isBlank c then passGap .code t else some (c :: t) := by
  rw [passGap]
  · rintro cs rfl rfl
    exact (h rfl '/' rfl).1 rfl
  · rintro cs rfl rfl
    exact (h rfl '*' rfl).2 rfl

theorem passGap_line_cons (c : Char) (t : List Char) :
    passGap .line (c :: t) = if c = '\n' || c = '\r' then passGap .code t else passGap .line t := rfl

theorem passGap_block_cons {c : Char} {t : List Char} (h : c = '*' → ∀ cs, t ≠ '/' :: cs) :
    passGap .block (c :: t) = passGap .block t := by
  rw [passGap]
  rintro cs rfl rfl
  exact h rfl cs rfl

theorem not_blank_slash : Text.isBlank '/' = false := by decide

/-- A char that begins neither a blank nor a comment. -/
theorem solid_cons {c : Char} (hb : Text.isBlank c = false) (hc : c ≠ '/') (t : List Char) : Solid (c :: t) := by
  rw [Solid, afterGap, passGap_cons fun h => absurd h hc, hb]
  rfl

theorem solid_slash {t : List Char} (h : ∀ c ∈ t.head?, c ≠ '/' ∧ c ≠ '*') : Solid ('/' :: t) := by
  rw [Solid, afterGap, passGap_cons fun _ => h, not_blank_slash]
  rfl

theorem passGap_blank {c : Char} (h : Text.isBlank c = true) (t : List Char) :
    passGap .code (c :: t) = passGap .code t := by
  have hc : c ≠ '/' := by
    rintro rfl
    rw [not_blank_slash] at h
    cases h
  rw [passGap_cons fun h => absurd h hc, h]
  rfl

/-- What is left after a gap begins with no other gap. -/
theorem passGap_solid {m : GapMode} {t r : List Char} (h : passGap m t = some r) : Solid r := by
  fun_induction passGap m t with
  | case4 c cs h₁ h₂ hb =>
    cases h
    rw [Solid, afterGap, passGap, if_neg hb] <;> assumption
  | _ => simp_all [solid_nil]

/-- The text that was passed over is a gap, unless everything was. -/
theorem gap_of_passGap {m : GapMode} {t r : List Char} (h : passGap m t = some r) (hr : r ≠ []) :
    ∃ g, t = g ++ r ∧ ∀ r', Solid r' → passGap m (g ++ r') = some r' := by
  fun_induction passGap m t with
  | case1 cs ih =>
    obtain ⟨g, rfl, hg⟩ := ih h
    exact ⟨'/' :: '/' :: g, rfl, fun r' hr' => by rw [← hg r' hr']; rfl⟩
  | case2 cs ih =>
    obtain ⟨g, rfl, hg⟩ := ih h
    exact ⟨'/' :: '*' :: g, rfl, fun r' hr' => by rw [← hg r' hr']; rfl⟩
  | case3 c cs _ _ hb ih =>
    obtain ⟨g, rfl, hg⟩ := ih h
    exact ⟨c :: g, rfl, fun r' hr' => by rw [← hg r' hr', List.cons_append, passGap_blank hb]⟩
  | case4 c cs _ _ hb =>
    cases h
    exact ⟨[], rfl, fun r' hr' => hr'⟩
  | case5 => cases h; exact absurd rfl hr
  | case6 c cs hc ih =>
    obtain ⟨g, rfl, hg⟩ := ih h
    exact ⟨c :: g, rfl, fun r' hr' => by rw [← hg r' hr', List.cons_append, passGap_line_cons, if_pos hc]⟩
  | case7 c cs hc ih =>
    obtain ⟨g, rfl, hg⟩ := ih h
    exact ⟨c :: g, rfl, fun r' hr' => by rw [← hg r' hr', List.cons_append, passGap_line_cons, if_neg hc]⟩
  | case8 => cases h; exact absurd rfl hr
  | case9 cs ih =>
    obtain ⟨g, rfl, hg⟩ := ih h
    exact ⟨'*' :: '/' :: g, rfl, fun r' hr' => by rw [← hg r' hr']; rfl⟩
  | case10 c cs hc ih =>
    obtain ⟨g, rfl, hg⟩ := ih h
    refine ⟨c :: g, rfl, fun r' hr' => ?_⟩
    -- The comment is closed inside `g`, so `g` has a char for `c` to be looked at with.
    cases g with
    | nil => nomatch hg [] solid_nil
    | cons e g =>
      rw [← hg r' hr', List.cons_append, passGap_block_cons]
      rintro rfl cs hcs
      cases hcs
      exact hc (g ++ r) rfl rfl
  | case11 => cases h

theorem passGap_length {m : GapMode} {t r : List Char} (h : passGap m t = some r) : r.length ≤ t.length := by
  by_cases hr : r = []
  · rw [hr]
    exact Nat.zero_le _
  · obtain ⟨g, rfl, -⟩ := gap_of_passGap h hr
    rw [List.length_append]
    exact Nat.le_add_left _ _

/-- Two slashes begin a comment. -/
theorem not_solid_slashes (t : List Char) : ¬ Solid ('/' :: '/' :: t) := by
  intro h
  have hlength := passGap_length (show passGap .line t = some ('/' :: '/' :: t) from h)
  simp only [List.length_cons] at hlength
  omega

theorem gap_of_afterGap {t r : List Char} (h : afterGap t = some r) (hr : r ≠ []) :
    ∃ g, t = g ++ r ∧ Gap g ∧ Solid r := by
  obtain ⟨g, ht, hg⟩ := gap_of_passGap h hr
  exact ⟨g, ht, hg, passGap_solid h⟩

/-- A line break ends what may be open at the end of a text that is all gap. -/
theorem passGap_newline {m : GapMode} {t : List Char} (h : passGap m t = some []) (r : List Char) :
    passGap m (t ++ '\n' :: r) = passGap .code r := by
  fun_induction passGap m t with
  | case1 cs ih | case2 cs ih | case9 cs ih => exact ih h
  | case3 c cs _ _ hb ih => rw [List.cons_append, passGap_blank hb, ih h]
  | case4 | case11 => cases h
  | case5 => exact passGap_blank (by decide) r
  | case6 c cs hc ih => rw [List.cons_append, passGap_line_cons, if_pos hc, ih h]
  | case7 c cs hc ih => rw [List.cons_append, passGap_line_cons, if_neg hc, ih h]
  | case8 => rfl
  | case10 c cs hc ih =>
    rw [List.cons_append, passGap_block_cons, ih h]
    rintro rfl cs' hcs
    cases cs with
    | nil => cases hcs
    | cons ch cs =>
      cases hcs
      exact hc cs rfl rfl

/-- After a line break another gap may follow. -/
theorem Gap.behind_newline {t g : List Char} (hg : Gap g) (h : afterGap t = some []) : Gap (t ++ '\n' :: g) := by
  intro r hr
  rw [List.append_assoc]
  exact (passGap_newline h (g ++ r)).trans (hg r hr)

theorem gap_newline {t : List Char} (h : afterGap t = some []) : Gap (t ++ ['\n']) := Gap.nil.behind_newline h

/-! ## Lines and blocks -/

/-- A char of a line. -/
def inLine : CharKind := .oneOf (.ofText "^\\r\\n")

theorem inLine_accepts (c : Char) : inLine.accepts c = !(c = '\n' || c = '\r') := by
  show ([('\r', '\r'), ('\n', '\n')].any (fun r => r.1 ≤ c && c ≤ r.2) != true) = _
  simp only [List.any_cons, List.any_nil, CharSet.accepts_exactly_range]
  by_cases h₁ : c = '\n' <;> by_cases h₂ : c = '\r' <;> simp [h₁, h₂]

theorem passGap_line {x : List Char} (hx : ∀ ch ∈ x, inLine.accepts ch = true) (t : List Char) :
    passGap .line (x ++ t) = passGap .line t := by
  induction x with
  | nil => rfl
  | cons ch x ih =>
    have hch := hx ch List.mem_cons_self
    rw [inLine_accepts, Bool.not_eq_true'] at hch
    rw [List.cons_append, passGap_line_cons, hch, if_neg Bool.false_ne_true, ih fun ch' h' => hx ch' (List.mem_cons_of_mem _ h')]

/-- A comment goes on until it is closed. -/
theorem passGap_block {x : List Char} (hx : ¬ ['*', '/'] <:+: x ++ ['*']) (t : List Char) :
    passGap .block (x ++ '*' :: '/' :: t) = passGap .code t := by
  induction x with
  | nil => rfl
  | cons ch x ih =>
    have hrest : ¬ ['*', '/'] <:+: x ++ ['*'] := fun h => hx (h.trans (List.suffix_cons ch _).isInfix)
    rw [List.cons_append, passGap_block_cons, ih hrest]
    rintro rfl cs hcs
    cases x with
    | nil => cases hcs
    | cons d x =>
      cases hcs
      exact hx ⟨[], x ++ ['*'], rfl⟩

end PegFront.Cminor
