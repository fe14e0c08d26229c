import PegFront.Proofs.Cminor.Expressions

/-!
# Nesting of parentheses

How deep in parentheses a text ends, if it begins at a given depth and closes no more parentheses than are open.
Parentheses in comments and between quotes do not count. A text of the grammar ends as deep as it begins.
-/

namespace PegFront.Cminor

/-- Where a text is, as far as parentheses are concerned. -/
inductive NestMode where
  | code
  | slash
  | line
  | block
  | star
  | quoted (quote : Char)
  | escaped (quote : Char)
deriving DecidableEq, Repr

/-- One char outside of comments and quotes. -/
def nestCode (n : Nat) (c : Char) : Option (NestMode × Nat) :=
  if c = '/' then some (.slash, n)
  else if c = '(' then some (.code, n + 1)
  else if c = ')' then if n = 0 then none else some (.code, n - 1)
  else if c = '"' ∨ c = '\'' then some (.quoted c, n)
  else some (.code, n)

def nestStep : NestMode × Nat → Char → Option (NestMode × Nat)
  | (.code, n), c => nestCode n c
  | (.slash, n), c => if c = '/' then some (.line, n) else if c = '*' then some (.block, n) else nestCode n c
  | (.line, n), c => some (if c = '\n' || c = '\r' then .code else .line, n)
  | (.block, n), c => some (if c = '*' then .star else .block, n)
  | (.star, n), c => some (if c = '/' then .code else if c = '*' then .star else .block, n)
  | (.quoted q, n), c => some (if c = '\\' then .escaped q else if c = q then .code else .quoted q, n)
  | (.escaped q, n), _ => some (.quoted q, n)

/-- Where a text ends, unless it closes a parenthesis too many. -/
def nest (s : NestMode × Nat) (t : List Char) : Option (NestMode × Nat) := t.foldlM nestStep s

/-- Every parenthesis of the text has its counterpart in it. -/
def Balanced (t : List Char) : Prop := nest (.code, 0) t = some (.code, 0)

instance (t : List Char) : Decidable (Balanced t) := inferInstanceAs (Decidable (_ = _))

section
variable {s s' : NestMode × Nat} {m m' : NestMode} {n n' : Nat} {c : Char} {t u : List Char}

theorem nest_append : nest s (t ++ u) = (nest s t).bind fun s' => nest s' u := List.foldlM_append

theorem nest_append_of (h : nest s t = some s') : nest s (t ++ u) = nest s' u := by rw [nest_append, h]; rfl

theorem nest_join {s'' : NestMode × Nat} (h : nest s t = some s') (h' : nest s' u = some s'') :
    nest s (t ++ u) = some s'' :=
  (nest_append_of h).trans h'

theorem nest_cons : nest s (c :: t) = (nestStep s c).bind fun s' => nest s' t := rfl

theorem nest_cons_of (h : nestStep s c = some s') : nest s (c :: t) = nest s' t := by rw [nest_cons, h]; rfl

/-- A text that begins deeper ends deeper. -/
theorem nestStep_add (h : nestStep (m, n) c = some (m', n')) (j : Nat) :
    nestStep (m, n + j) c = some (m', n' + j) := by
  have hcode : nestCode n c = some (m', n') → nestCode (n + j) c = some (m', n' + j) := by
    intro h
    unfold nestCode at h ⊢
    grind
  cases m with
  | code => exact hcode h
  | slash =>
    simp only [nestStep] at h ⊢
    grind
  | _ => simp only [nestStep, Option.some.injEq, Prod.mk.injEq] at h ⊢; grind

theorem nest_add (h : nest (m, n) t = some (m', n')) (j : Nat) : nest (m, n + j) t = some (m', n' + j) := by
  induction t generalizing m n with
  | nil => cases h; rfl
  | cons c t ih =>
    rw [nest_cons, Option.bind_eq_some_iff] at h
    obtain ⟨⟨m₁, n₁⟩, hstep, h⟩ := h
    rw [nest_cons_of (nestStep_add hstep j)]
    exact ih h

/-! ## Texts without parentheses -/

/-- Outside of comments and quotes, other chars do not count. -/
def isFlat (c : Char) : Bool := c ≠ '/' ∧ c ≠ '(' ∧ c ≠ ')' ∧ c ≠ '"' ∧ c ≠ '\''

theorem nest_flat (h : t.all isFlat = true) : nest (.code, n) t = some (.code, n) := by
  induction t with
  | nil => rfl
  | cons c t ih =>
    obtain ⟨hc, ht⟩ := Bool.and_eq_true_iff.1 h
    have hstep : nestStep (.code, n) c = some (.code, n) := by
      simp only [isFlat, decide_eq_true_eq] at hc
      simp [nestStep, nestCode, hc]
    rw [nest_cons_of hstep]
    exact ih ht

theorem isFlat_of_word (h : Text.isWordChar c = true) : isFlat c = true := by
  simp only [isFlat, decide_eq_true_eq]
  refine ⟨?_, ?_, ?_, ?_, ?_⟩ <;> rintro rfl <;> revert h <;> decide

theorem nest_slash (h : ∀ c ∈ t.head?, c ≠ '/' ∧ c ≠ '*') (hne : t ≠ []) : nest (.slash, n) t = nest (.code, n) t := by
  cases t with
  | nil => exact absurd rfl hne
  | cons c t =>
    obtain ⟨h₁, h₂⟩ := h c rfl
    simp only [nest_cons, nestStep, if_neg h₁, if_neg h₂]

theorem nest_star (h : t.head? ≠ some '/') (hne : t ≠ []) : nest (.star, n) t = nest (.block, n) t := by
  cases t with
  | nil => exact absurd rfl hne
  | cons c t =>
    have hc : c ≠ '/' := by rintro rfl; exact h rfl
    simp only [nest_cons, nestStep, if_neg hc]

/-- The mode of a gap. -/
def GapMode.nestMode : GapMode → NestMode
  | .code => .code
  | .line => .line
  | .block => .block

/-- A gap ends outside of comments. -/
theorem nest_passGap {mode : GapMode} {r : List Char} (h : passGap mode t = some r) (hr : r ≠ []) :
    ∃ g, t = g ++ r ∧ nest (mode.nestMode, n) g = some (.code, n) := by
  fun_induction passGap mode t with
  | case1 cs ih =>
    obtain ⟨g, rfl, hg⟩ := ih h
    exact ⟨'/' :: '/' :: g, rfl, hg⟩
  | case2 cs ih =>
    obtain ⟨g, rfl, hg⟩ := ih h
    exact ⟨'/' :: '*' :: g, rfl, hg⟩
  | case3 c cs _ _ hb ih =>
    obtain ⟨g, rfl, hg⟩ := ih h
    refine ⟨c :: g, rfl, ?_⟩
    have hflat : isFlat c = true := by
      simp only [isFlat, decide_eq_true_eq]
      refine ⟨?_, ?_, ?_, ?_, ?_⟩ <;> rintro rfl <;> revert hb <;> decide
    have hone : nest (.code, n) [c] = some (.code, n) := nest_flat (by simpa using hflat)
    exact (nest_append_of (u := g) hone).trans hg
  | case4 c cs _ _ hb =>
    cases h
    exact ⟨[], rfl, rfl⟩
  | case5 => cases h; exact absurd rfl hr
  | case6 c cs hc ih =>
    obtain ⟨g, rfl, hg⟩ := ih h
    refine ⟨c :: g, rfl, ?_⟩
    exact (nest_cons_of (by simp only [GapMode.nestMode, nestStep, if_pos hc])).trans hg
  | case7 c cs hc ih =>
    obtain ⟨g, rfl, hg⟩ := ih h
    refine ⟨c :: g, rfl, ?_⟩
    exact (nest_cons_of (by simp only [GapMode.nestMode, nestStep, if_neg hc])).trans hg
  | case8 => cases h; exact absurd rfl hr
  | case9 cs ih =>
    obtain ⟨g, rfl, hg⟩ := ih h
    exact ⟨'*' :: '/' :: g, rfl, hg⟩
  | case10 c cs hc ih =>
    obtain ⟨g, rfl, hg⟩ := ih h
    refine ⟨c :: g, rfl, ?_⟩
    by_cases hstar : c = '*'
    · subst hstar
      have hne : g ≠ [] := by rintro rfl; cases hg
      have hhead : g.head? ≠ some '/' := by
        intro hslash
        obtain ⟨g', rfl⟩ := List.head?_eq_some_iff.1 hslash
        exact hc (g' ++ r) rfl rfl
      show nest (.star, n) g = _
      rw [nest_star hhead hne]
      exact hg
    · exact (nest_cons_of (by simp only [GapMode.nestMode, nestStep, if_neg hstar])).trans hg
  | case11 => cases h

theorem nest_gap {g : List Char} (hg : Gap g) : nest (.code, n) g = some (.code, n) := by
  obtain ⟨g', hg', hnest⟩ := nest_passGap (n := n) (hg ['a'] (by decide)) (by simp)
  rwa [List.append_cancel_right hg']

/-- A gap at the end of a text may be a comment that is still open. -/
theorem nest_trail (h : afterGap t = some []) : ∃ m, nest (.code, n) t = some (m, n) := by
  have hnest := nest_gap (n := n) (gap_newline h)
  rw [nest_append, Option.bind_eq_some_iff] at hnest
  obtain ⟨⟨m, n'⟩, ht, hbreak⟩ := hnest
  rw [nest_cons, Option.bind_eq_some_iff] at hbreak
  obtain ⟨s, hstep, hs⟩ := hbreak
  obtain rfl : s = (.code, n) := Option.some.inj hs
  obtain rfl : n' = n := by cases m <;> simp_all [nestStep, nestCode]
  exact ⟨m, ht⟩

/-! ## Texts of tokens -/

theorem nest_word {x : List Char} (hx : isWord x = true) : nest (.code, n) x = some (.code, n) :=
  nest_flat (List.all_eq_true.2 fun c hc => isFlat_of_word (all_of_isWord hx c hc))

theorem nest_digits {x : List Char} (hx : Run .digit x) : nest (.code, n) x = some (.code, n) :=
  nest_flat (List.all_eq_true.2 fun c hc => isFlat_of_word (isWordChar_of_digit (hx.2 c hc)))

theorem nest_exponent {x : List Char} (hx : Exponent x) : nest (.code, n) x = some (.code, n) := by
  obtain ⟨he, hs, hx⟩ := hx
  rw [nest_append_of (nest_flat ?_)]
  · exact nest_digits hx
  · rcases he with rfl | rfl <;> rcases hs with rfl | rfl | rfl <;> decide

theorem nest_float {x : List Char} (hx : FloatText x) : nest (.code, n) x = some (.code, n) := by
  obtain ⟨ha, hb, hp⟩ | ⟨ha, hp⟩ := hx
  · rw [List.append_assoc, List.append_assoc, nest_append_of (nest_digits ha), nest_append_of (nest_flat (by decide)),
      nest_append_of (nest_digits hb)]
    rcases hp with rfl | hp
    · rfl
    · exact nest_exponent hp
  · rw [nest_append_of (nest_digits ha)]
    exact nest_exponent hp

/-- Chars that stand for themselves between quotes. -/
theorem nest_plain {q : Char} (h : ∀ c ∈ t, c ≠ '\\' ∧ c ≠ q) : nest (.quoted q, n) t = some (.quoted q, n) := by
  induction t with
  | nil => rfl
  | cons c t ih =>
    obtain ⟨h₁, h₂⟩ := h c List.mem_cons_self
    have hstep : nestStep (.quoted q, n) c = some (.quoted q, n) := by simp only [nestStep, if_neg h₁, if_neg h₂]
    rw [nest_cons_of hstep]
    exact ih fun c' h' => h c' (List.mem_cons_of_mem _ h')

theorem nest_escape {q : Char} {x : List Char} {next : Option Char} (hq : q = '"' ∨ q = '\'') (hx : Escape x next) :
    nest (.quoted q, n) x = some (.quoted q, n) := by
  have hdigits : ∀ y : List Char, (∀ c ∈ y, Text.isHexDigit c = true) → nest (.quoted q, n) y = some (.quoted q, n) := by
    intro y hy
    refine nest_plain fun c hc => ?_
    have := hy c hc
    constructor
    · rintro rfl; revert this; decide
    · rintro rfl; rcases hq with rfl | rfl <;> revert this <;> decide
  have hafter : ∀ (c : Char) (y : List Char), nest (.quoted q, n) ('\\' :: c :: y) = nest (.quoted q, n) y := fun _ _ => rfl
  cases hx with
  | hex _ hx _ =>
    rw [hafter]
    exact hdigits _ hx.2
  | code ha hb hc hd =>
    rw [hafter]
    exact hdigits _ (by simp [ha, hb, hc, hd])
  | octal hne hx hn =>
    rename_i y
    cases y with
    | nil => exact absurd rfl hne
    | cons c y =>
      rw [hafter]
      refine hdigits y fun c' hc' => ?_
      have := hx c' (List.mem_cons_of_mem _ hc')
      simp only [Text.isOctalDigit, Bool.and_eq_true, decide_eq_true_eq] at this
      simp only [Text.isHexDigit, Char.isDigit, Bool.or_eq_true, Bool.and_eq_true, decide_eq_true_eq]
      exact .inl (.inl ⟨this.1, Nat.le_trans this.2 (by decide)⟩)
  | simple _ => rfl

theorem nest_quoted {x : List Char} (hx : Quoted '"' x) : nest (.quoted '"', n) x = some (.quoted '"', n) := by
  induction hx with
  | nil => rfl
  | plain hc _ ih =>
    rw [← List.singleton_append, nest_append_of (nest_plain (by simpa using ⟨hc.1, hc.2.1⟩))]
    exact ih
  | escape he _ ih =>
    rw [nest_append_of (nest_escape (.inl rfl) he)]
    exact ih

theorem nest_literal {x : List Char} {l : Literal} (h : LiteralText x l) : nest (.code, n) x = some (.code, n) := by
  cases h with
  | true | false | null => exact nest_word (by decide)
  | float hx => exact nest_float hx
  | hex hc hx =>
    refine nest_flat (List.all_eq_true.2 fun c' hc' => ?_)
    simp only [List.mem_cons] at hc'
    rcases hc' with rfl | rfl | hc'
    · decide
    · rcases hc with rfl | rfl <;> decide
    · exact isFlat_of_word (isWordChar_of_hexDigit (hx.2 c' hc'))
  | decimal hx => exact nest_digits hx
  | char hx =>
    rename_i x _ _
    have hbody : nest (.quoted '\'', n) x = some (.quoted '\'', n) := by
      rcases hx with ⟨ch, hch, rfl⟩ | hx
      · exact nest_plain (by simpa using ⟨hch.1, hch.2.1⟩)
      · exact nest_escape (.inr rfl) hx
    show nest (.quoted '\'', n) (x ++ ['\'']) = _
    rw [nest_append_of hbody]
    rfl
  | string hx =>
    rename_i x _ _
    show nest (.quoted '"', n) (x ++ ['"']) = _
    rw [nest_append_of (nest_quoted hx)]
    rfl

theorem nest_operator {op : BinaryOp} (hop : op ≠ .div) : nest (.code, n) op.symbol.toList = some (.code, n) := by
  cases op with
  | div => exact absurd rfl hop
  | _ => exact nest_flat (by decide)

end

end PegFront.Cminor
