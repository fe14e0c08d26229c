import PegFront.Proofs.Cminor.Literals

/-!
# Operators and what may follow an expression

The operator that begins at a place is read off the text alone (`operatorAt`): of two operators of which one
begins the other the longer one is there. Every level of binding has its operators, and the pattern of a level hits
just those. `Ends k t` says that no expression of level `k` goes on with the text `t`.
-/

namespace PegFront.Cminor

open Expressions

/-! ## Blanks are apart from words -/

theorem blankRanges_apart : ∀ r ∈ Text.blankRanges, ∀ i < r.2 + 1 - r.1,
    Text.isWordChar (Char.ofNat (r.1 + i)) = false := by decide +kernel

theorem isWordChar_of_blank {ch : Char} (h : Text.isBlank ch = true) : Text.isWordChar ch = false := by
  obtain ⟨r, hr, hch⟩ := List.any_eq_true.1 h
  simp only [Bool.and_eq_true, decide_eq_true_eq] at hch
  have := blankRanges_apart r hr (ch.toNat - r.1) (by omega)
  rwa [Nat.add_sub_cancel' hch.1, Char.ofNat_toNat] at this

/-! ## Levels -/

/-- How tight an operator binds. -/
def BinaryOp.level : BinaryOp → Nat
  | .or => 0
  | .and => 1
  | .equal | .notEqual => 2
  | .less | .greater | .lessOrEqual | .greaterOrEqual => 3
  | .shiftLeft | .shiftRight => 4
  | .add | .sub => 5
  | .mul | .div | .rem => 6

theorem BinaryOp.level_lt (op : BinaryOp) : op.level < 7 := by cases op <;> decide

/-- The operators of a level, as a pattern. -/
def operators : Nat → Pattern
  | 0 => .text "||"
  | 1 => .text "&&"
  | 2 => .alt (.text "==") (.text "!=")
  | 3 => .choice [.text "<=", .text ">=", .diff (.char '<') (.text "<<"), .diff (.char '>') (.text ">>")]
  | 4 => .alt (.text "<<") (.text ">>")
  | 5 => .set "+-"
  | _ => .set "*/%"

/-- All operators, the longer ones first. -/
def longestFirst : List BinaryOp :=
  [.or, .and, .equal, .notEqual, .lessOrEqual, .greaterOrEqual, .shiftLeft, .shiftRight, .less, .greater, .add, .sub,
    .mul, .div, .rem]

/-- The operator that begins here. -/
def operatorAt (t : List Char) : Option BinaryOp := longestFirst.find? fun op => op.symbol.toList.isPrefixOf t

theorem accepts_factor (ch : Char) :
    (CharKind.oneOf (.ofText "*/%")).accepts ch = true ↔ ch = '*' ∨ ch = '/' ∨ ch = '%' := by
  show ((['*', '/', '%'].map fun a => (a, a)).any (fun r => r.1 ≤ ch && ch ≤ r.2) != false) = true ↔ _
  rw [accepts_singles]
  simp

theorem operatorAt_less {t : List Char} (h : ∀ ch ∈ t.head?, ch ≠ '=' ∧ ch ≠ '<') :
    operatorAt ('<' :: t) = some .less := by
  cases t with
  | nil => rfl
  | cons ch t =>
    obtain ⟨h₁, h₂⟩ := h ch rfl
    simp [operatorAt, longestFirst, BinaryOp.symbol, List.isPrefixOf, h₁.symm, h₂.symm]

theorem operatorAt_greater {t : List Char} (h : ∀ ch ∈ t.head?, ch ≠ '=' ∧ ch ≠ '>') :
    operatorAt ('>' :: t) = some .greater := by
  cases t with
  | nil => rfl
  | cons ch t =>
    obtain ⟨h₁, h₂⟩ := h ch rfl
    simp [operatorAt, longestFirst, BinaryOp.symbol, List.isPrefixOf, h₁.symm, h₂.symm]

/-- An operator before a text that makes it no longer. -/
theorem operatorAt_symbol (op : BinaryOp) {t : List Char} (ht : ∀ ch ∈ t.head?, ch ≠ '=' ∧ ch ≠ '<' ∧ ch ≠ '>') :
    operatorAt (op.symbol.toList ++ t) = some op := by
  cases op with
  | less => exact operatorAt_less fun ch h => ⟨(ht ch h).1, (ht ch h).2.1⟩
  | greater => exact operatorAt_greater fun ch h => ⟨(ht ch h).1, (ht ch h).2.2⟩
  | _ => rfl

theorem operatorAt_begins {t : List Char} {op : BinaryOp} (h : operatorAt t = some op) : op.symbol.toList <+: t := by
  simpa using List.find?_some h

/-- A sign of comparison that is neither alone nor before `=` stands twice. -/
theorem doubled {t : List Char} {ch : Char} {alone orEqual : BinaryOp} (halone : operatorAt t ≠ some alone)
    (horEqual : operatorAt t ≠ some orEqual)
    (h₁ : ∀ {u : List Char}, (∀ ch' ∈ u.head?, ch' ≠ '=' ∧ ch' ≠ ch) → operatorAt (ch :: u) = some alone)
    (h₂ : ∀ u, operatorAt (ch :: '=' :: u) = some orEqual) (ht : t.head? = some ch) : [ch, ch] <+: t := by
  obtain ⟨u, rfl⟩ := List.head?_eq_some_iff.1 ht
  cases u with
  | nil => exact absurd (h₁ (by rintro _ ⟨⟩)) halone
  | cons ch' u =>
    by_cases heq : ch' = '='
    · subst heq
      exact absurd (h₂ u) horEqual
    by_cases hch : ch' = ch
    · subst hch
      exact ⟨u, rfl⟩
    · exact absurd (h₁ (by rintro _ ⟨⟩; exact ⟨heq, hch⟩)) halone

theorem operatorAt_long {t : List Char} {op : BinaryOp} (hl : op.symbol.length = 2) (h : op.symbol.toList <+: t) :
    operatorAt t = some op := by
  obtain ⟨u, rfl⟩ := h
  cases op with
  | less | greater | add | sub | mul | div | rem => cases hl
  | _ => rfl

section
variable {w : World Value} {skip : Option RuleId} {c : Cursor} {rule : Rule Value} {ctx : Context Value}

/-- A sign of comparison that is not doubled. -/
theorem single_hit {ch : Char} {double : String} {d : Cursor} (hd : c.Spans [ch] d) (h : ¬ double.toList <+: c.rest) :
    Derives w skip (.pattern rule (.diff (.char ch) (.text double)) ctx) c (.hit ctx d) :=
  .diff_apart (.char_of_spans hd) (.text_of_no_match h)

theorem single_miss {ch : Char} {double : String} (h : c.rest.head? = some ch → double.toList <+: c.rest)
    (hlen : [ch] <+: double.toList) :
    Derives w skip (.pattern rule (.diff (.char ch) (.text double)) ctx) c (.miss ctx) := by
  by_cases hch : c.rest.head? = some ch
  · obtain ⟨e, he⟩ := Cursor.exists_spans (h hch)
    obtain ⟨u, hu⟩ := hlen
    rw [← hu] at he
    obtain ⟨d, hd, hde⟩ := Cursor.spans_append.1 he
    refine .diff_excluded (.char_of_spans hd) (.text_of_spans (hu ▸ he)) ?_
    rw [hde.offset]
    exact Nat.le_add_right _ _
  · exact .diff_subject (.char_of_head hch)

theorem operator_hit {op : BinaryOp} {d : Cursor} (h : operatorAt c.rest = some op)
    (hd : c.Spans op.symbol.toList d) :
    Derives w skip (.pattern rule (operators op.level) ctx) c (.hit ctx d) := by
  have hno : ∀ op' : BinaryOp, op'.symbol.length = 2 → op' ≠ op → ¬ op'.symbol.toList <+: c.rest :=
    fun op' hl hne hp => hne (Option.some.inj ((operatorAt_long hl hp).symm.trans h))
  cases op with
  | or | and => exact .text_of_spans hd
  | equal | shiftLeft => exact .alt_first (.text_of_spans hd)
  | notEqual => exact .alt_second (.text_of_no_match (hno .equal rfl nofun)) (.text_of_spans hd)
  | shiftRight => exact .alt_second (.text_of_no_match (hno .shiftLeft rfl nofun)) (.text_of_spans hd)
  | add => exact .one_of_spans hd ((accepts_sign _).2 (.inl rfl))
  | sub => exact .one_of_spans hd ((accepts_sign _).2 (.inr rfl))
  | mul => exact .one_of_spans hd ((accepts_factor _).2 (.inl rfl))
  | div => exact .one_of_spans hd ((accepts_factor _).2 (.inr (.inl rfl)))
  | rem => exact .one_of_spans hd ((accepts_factor _).2 (.inr (.inr rfl)))
  | lessOrEqual => exact .alt_first (.alt_first (.alt_first (.text_of_spans hd)))
  | greaterOrEqual =>
    exact .alt_first (.alt_first (.alt_second (.text_of_no_match (hno .lessOrEqual rfl nofun)) (.text_of_spans hd)))
  | less =>
    exact .alt_first (.alt_second (.alt_second (.text_of_no_match (hno .lessOrEqual rfl nofun))
      (.text_of_no_match (hno .greaterOrEqual rfl nofun))) (single_hit hd (hno .shiftLeft rfl nofun)))
  | greater =>
    have hless : c.rest.head? ≠ some '<' := by rw [hd.rest]; exact nofun
    exact .alt_second (.alt_second (.alt_second (.text_of_no_match (hno .lessOrEqual rfl nofun))
      (.text_of_no_match (hno .greaterOrEqual rfl nofun))) (.diff_subject (.char_of_head hless)))
      (single_hit hd (hno .shiftRight rfl nofun))

theorem operator_miss {k : Nat} (hk : k < 7) (h : ∀ op, operatorAt c.rest = some op → op.level ≠ k) :
    Derives w skip (.pattern rule (operators k) ctx) c (.miss ctx) := by
  have hlong : ∀ op : BinaryOp, op.symbol.length = 2 → op.level = k →
      Derives w skip (.pattern rule (.text op.symbol) ctx) c (.miss ctx) :=
    fun op hl hop => .text_of_no_match fun hp => h op (operatorAt_long hl hp) hop
  match k, hk with
  | 0, _ => exact hlong .or rfl rfl
  | 1, _ => exact hlong .and rfl rfl
  | 2, _ => exact .alt_second (hlong .equal rfl rfl) (hlong .notEqual rfl rfl)
  | 3, _ =>
    exact .alt_second (.alt_second (.alt_second (hlong .lessOrEqual rfl rfl) (hlong .greaterOrEqual rfl rfl))
      (single_miss (doubled (h .less · rfl) (h .lessOrEqual · rfl) operatorAt_less fun _ => rfl) ⟨['<'], rfl⟩))
      (single_miss (doubled (h .greater · rfl) (h .greaterOrEqual · rfl) operatorAt_greater fun _ => rfl)
        ⟨['>'], rfl⟩)
  | 4, _ => exact .alt_second (hlong .shiftLeft rfl rfl) (hlong .shiftRight rfl rfl)
  | 5, _ =>
    refine .one_of_head fun ch hch => ?_
    obtain ⟨t, ht⟩ := List.head?_eq_some_iff.1 hch
    rw [Bool.eq_false_iff, ne_eq, accepts_sign]
    rintro (rfl | rfl)
    · exact h .add (by rw [ht]; rfl) rfl
    · exact h .sub (by rw [ht]; rfl) rfl
  | 6, _ =>
    refine .one_of_head fun ch hch => ?_
    obtain ⟨t, ht⟩ := List.head?_eq_some_iff.1 hch
    rw [Bool.eq_false_iff, ne_eq, accepts_factor]
    rintro (rfl | rfl | rfl)
    · exact h .mul (by rw [ht]; rfl) rfl
    · exact h .div (by rw [ht]; rfl) rfl
    · exact h .rem (by rw [ht]; rfl) rfl

theorem operator_inv {k : Nat} {ctx' : Context Value} {d : Cursor} (hk : k < 7)
    (h : Derives w skip (.pattern rule (operators k) ctx) c (.hit ctx' d)) :
    ctx' = ctx ∧ ∃ op : BinaryOp, op.level = k ∧ operatorAt c.rest = some op ∧ c.Spans op.symbol.toList d := by
  by_cases hop : ∀ op, operatorAt c.rest = some op → op.level ≠ k
  · cases h.unique (operator_miss hk hop)
  · simp only [not_forall, not_not] at hop
    obtain ⟨op, hat, rfl⟩ := hop
    obtain ⟨e, he⟩ := Cursor.exists_spans (operatorAt_begins hat)
    cases h.unique (operator_hit hat he)
    exact ⟨rfl, op, rfl, hat, he⟩

/-- The pattern of the operators before an operand. -/
def signs : Pattern := .set "\\-+!~"

theorem accepts_unary (ch : Char) :
    (CharKind.oneOf (.ofText "\\-+!~")).accepts ch = true ↔ ch = '-' ∨ ch = '+' ∨ ch = '!' ∨ ch = '~' := by
  show ((['-', '+', '!', '~'].map fun a => (a, a)).any (fun r => r.1 ≤ ch && ch ≤ r.2) != false) = true ↔ _
  rw [accepts_singles]
  simp

theorem unary_hit {op : UnaryOp} {d : Cursor} (h : c.Spans op.symbol.toList d) :
    Derives w skip (.pattern rule signs ctx) c (.hit ctx d) := by
  cases op with
  | plus => exact .one_of_spans h ((accepts_unary _).2 (.inr (.inl rfl)))
  | neg => exact .one_of_spans h ((accepts_unary _).2 (.inl rfl))
  | not => exact .one_of_spans h ((accepts_unary _).2 (.inr (.inr (.inl rfl))))
  | complement => exact .one_of_spans h ((accepts_unary _).2 (.inr (.inr (.inr rfl))))

theorem unary_miss (h : ∀ ch ∈ c.rest.head?, ch ≠ '-' ∧ ch ≠ '+' ∧ ch ≠ '!' ∧ ch ≠ '~') :
    Derives w skip (.pattern rule signs ctx) c (.miss ctx) := by
  refine .one_of_head fun ch hch => ?_
  rw [Bool.eq_false_iff, ne_eq, accepts_unary]
  simpa only [not_or] using h ch hch

theorem unary_inv {ctx' : Context Value} {d : Cursor} (h : Derives w skip (.pattern rule signs ctx) c (.hit ctx' d)) :
    ctx' = ctx ∧ ∃ op : UnaryOp, c.Spans op.symbol.toList d := by
  obtain ⟨rfl, ch, hch, ha⟩ := Derives.one_inv h
  refine ⟨rfl, ?_⟩
  rcases (accepts_unary ch).1 ha with rfl | rfl | rfl | rfl
  exacts [⟨.neg, hch⟩, ⟨.plus, hch⟩, ⟨.not, hch⟩, ⟨.complement, hch⟩]

end

theorem BinaryOp.ofSymbol?_symbol (op : BinaryOp) : BinaryOp.ofSymbol? op.symbol = some op := by cases op <;> rfl

theorem UnaryOp.ofSymbol?_symbol (op : UnaryOp) : UnaryOp.ofSymbol? op.symbol = some op := by cases op <;> rfl

/-! ## What follows -/

section
variable {g t u : List Char}

/-- A text that is all gap begins with a blank or a comment. -/
theorem head_of_afterGap (h : afterGap t = some []) : ∀ ch ∈ t.head?, Text.isBlank ch = true ∨ ch = '/' := by
  intro ch hch
  obtain ⟨t, rfl⟩ := List.head?_eq_some_iff.1 hch
  refine Classical.byContradiction fun hno => ?_
  rw [not_or, Bool.not_eq_true] at hno
  rw [solid_cons hno.1 hno.2 t] at h
  cases h

theorem Gap.head (hg : Gap g) : ∀ ch ∈ g.head?, Text.isBlank ch = true ∨ ch = '/' :=
  head_of_afterGap (by have := hg [] solid_nil; rwa [List.append_nil] at this)

theorem gap_blank {ch : Char} (h : Text.isBlank ch = true) : Gap [ch] := by
  intro t ht
  rw [afterGap, List.singleton_append, passGap_blank h]
  exact ht

theorem gap_space : Gap [' '] := gap_blank (by decide)

theorem tokenEnd_of_head (h : ∀ ch ∈ t.head?, Text.isWordChar ch = false ∧ ch ≠ '.') : TokenEnd t where
  word := fun ch hch => (h ch hch).1
  fraction := fun ch u ht => absurd rfl (h '.' (by rw [ht]; rfl)).2

theorem tokenEnd_of_gap (h : ∀ ch ∈ t.head?, Text.isBlank ch = true ∨ ch = '/') : TokenEnd t := by
  refine tokenEnd_of_head fun ch hch => ?_
  rcases h ch hch with hb | rfl
  · exact ⟨isWordChar_of_blank hb, by rintro rfl; cases hb⟩
  · decide

/-- A token may end before a gap. -/
theorem Gap.tokenEnd (hg : Gap g) (hu : TokenEnd u) : TokenEnd (g ++ u) := by
  cases g with
  | nil => exact hu
  | cons ch g => exact tokenEnd_of_gap hg.head

/-- A text of this level does not go on here. -/
structure Ends (k : Nat) (t : List Char) : Prop where
  token : TokenEnd t
  next : ∃ r, afterGap t = some r ∧ (k ≤ 8 → ∀ ch ∈ r.head?, ch ≠ '.' ∧ ch ≠ '(' ∧ ch ≠ '[') ∧
    ∀ op, operatorAt r = some op → op.level < k

theorem Ends.mono {k k' : Nat} (hk : k ≤ k') (h : Ends k t) : Ends k' t := by
  obtain ⟨r, hr, hsuffix, hop⟩ := h.next
  exact ⟨h.token, r, hr, fun hk' => hsuffix (Nat.le_trans hk hk'), fun op h => Nat.lt_of_lt_of_le (hop op h) hk⟩

/-- Before a char that begins neither a suffix nor an operator, every expression ends. -/
theorem ends_char {k : Nat} {ch : Char} (hg : Gap g) (hb : Text.isBlank ch = false) (hword : Text.isWordChar ch = false)
    (hs : ch ≠ '.' ∧ ch ≠ '(' ∧ ch ≠ '[') (hop : ∀ op, operatorAt (ch :: u) = some op → op.level < k)
    (hsolid : ch ≠ '/') : Ends k (g ++ ch :: u) where
  token := hg.tokenEnd (tokenEnd_of_head (by rintro _ ⟨⟩; exact ⟨hword, hs.1⟩))
  next := ⟨ch :: u, hg _ (solid_cons hb hsolid u), fun _ => by rintro _ ⟨⟩; exact hs, hop⟩

/-- Everything ends before a gap at the end of the text. -/
theorem ends_nothing {k : Nat} (h : afterGap t = some []) : Ends k t :=
  ⟨tokenEnd_of_gap (head_of_afterGap h), [], h, fun _ => nofun, nofun⟩

/-- What closes an expression in the grammars. -/
theorem ends_closing {k : Nat} {ch : Char} (hg : Gap g) (hch : ch = ')' ∨ ch = ']' ∨ ch = ',' ∨ ch = ';') :
    Ends k (g ++ ch :: u) := by
  rcases hch with rfl | rfl | rfl | rfl <;>
    exact ends_char hg (by decide) (by decide) (by decide) (fun _ h => nomatch h) (by decide)

/-- Before a suffix only the expression it is attached to ends. -/
theorem ends_bracket {ch : Char} (hg : Gap g) (hch : ch = '(' ∨ ch = '[') : Ends 9 (g ++ ch :: u) where
  token := by
    refine hg.tokenEnd (tokenEnd_of_head ?_)
    rcases hch with rfl | rfl <;> rintro _ ⟨⟩ <;> decide
  next := by
    refine ⟨ch :: u, hg _ ?_, fun hk => absurd hk (by decide), fun op _ => Nat.lt_trans op.level_lt (by decide)⟩
    rcases hch with rfl | rfl <;> exact solid_cons (by decide) (by decide) _

theorem ends_dot (hg : Gap g) (hu : ∀ ch ∈ u.head?, ch.isDigit = false) : Ends 9 (g ++ '.' :: u) where
  token := by
    refine hg.tokenEnd ⟨by rintro _ ⟨⟩; decide, ?_⟩
    rintro ch v ⟨⟩
    exact hu ch rfl
  next := ⟨'.' :: u, hg _ (solid_cons (by decide) (by decide) _), fun hk => absurd hk (by decide),
    fun op _ => Nat.lt_trans op.level_lt (by decide)⟩

/-- The left operand of an operator ends before it. -/
theorem ends_operator {op : BinaryOp} (hg : Gap g) (hu : ∀ ch ∈ u.head?, ch ≠ '=' ∧ ch ≠ '<' ∧ ch ≠ '>')
    (hs : Solid (op.symbol.toList ++ u)) : Ends (op.level + 1) (g ++ (op.symbol.toList ++ u)) where
  token := by
    refine hg.tokenEnd (tokenEnd_of_head ?_)
    cases op <;> rintro _ ⟨⟩ <;> decide
  next := by
    refine ⟨_, hg _ hs, fun _ => ?_, fun op' h => ?_⟩
    · cases op <;> rintro _ ⟨⟩ <;> decide
    · rw [operatorAt_symbol op hu] at h
      cases h
      exact Nat.lt_succ_self _

end

end PegFront.Cminor
