import PegFront.Proofs.Cminor.Words

/-!
# Literals

The texts of literals, and what they stand for. A literal is read off its text alone, wherever a token may end
after it (`literal_hit`), and what is read as a literal is such a text (`literal_inv`).
-/

namespace PegFront.Cminor

/-! ## Texts of literals -/

/-- A run of chars of a kind, not empty. -/
def Run (kind : CharKind) (x : List Char) : Prop := x ≠ [] ∧ ∀ c ∈ x, kind.accepts c = true

inductive Exponent : List Char → Prop
  | mk {e : Char} {sign x : List Char} (he : e = 'e' ∨ e = 'E') (hs : sign = [] ∨ sign = ['+'] ∨ sign = ['-'])
      (hx : Run .digit x) : Exponent (e :: sign ++ x)

/-- Numbers with a fraction, an exponent or both. -/
inductive FloatText : List Char → Prop
  | fraction {a b p : List Char} (ha : Run .digit a) (hb : Run .digit b) (hp : p = [] ∨ Exponent p) :
      FloatText (a ++ ['.'] ++ b ++ p)
  | exponent {a p : List Char} (ha : Run .digit a) (hp : Exponent p) : FloatText (a ++ p)

/-- An escape, before the char that follows it. -/
inductive Escape : List Char → Option Char → Prop
  | hex {c : Char} {x : List Char} {next : Option Char} (hc : c = 'x' ∨ c = 'X') (hx : Run .hexDigit x)
      (hn : ∀ d ∈ next, Text.isHexDigit d = false) : Escape ('\\' :: c :: x) next
  | code {a b c d : Char} {next : Option Char} (ha : Text.isHexDigit a = true) (hb : Text.isHexDigit b = true)
      (hc : Text.isHexDigit c = true) (hd : Text.isHexDigit d = true) : Escape ['\\', 'u', a, b, c, d] next
  | octal {x : List Char} {next : Option Char} (hne : x ≠ []) (hx : ∀ c ∈ x, Text.isOctalDigit c = true)
      (hn : ∀ d ∈ next, Text.isOctalDigit d = false) : Escape ('\\' :: x) next
  | simple {c : Char} {next : Option Char} (hc : c ∈ "abfnrtv'\"\\?".toList) : Escape ['\\', c] next

/-- A char that stands for itself between quotes. -/
def Plain (quote c : Char) : Prop := c ≠ '\\' ∧ c ≠ quote ∧ c ≠ '\r' ∧ c ≠ '\n'

/-- What may stand between single quotes. -/
def CharBody (x : List Char) : Prop := (∃ ch, Plain '\'' ch ∧ x = [ch]) ∨ Escape x (some '\'')

/-- What may stand between quotes of a string. -/
inductive Quoted (quote : Char) : List Char → Prop
  | nil : Quoted quote []
  | plain {c : Char} {x : List Char} (hc : Plain quote c) (hx : Quoted quote x) : Quoted quote (c :: x)
  | escape {e x : List Char} (he : Escape e (x ++ [quote]).head?) (hx : Quoted quote x) : Quoted quote (e ++ x)

inductive LiteralText : List Char → Literal → Prop
  | true : LiteralText "true".toList (.bool true)
  | false : LiteralText "false".toList (.bool false)
  | float {x : List Char} (hx : FloatText x) : LiteralText x (.float (floatValue x))
  | hex {c : Char} {x : List Char} (hc : c = 'x' ∨ c = 'X') (hx : Run .hexDigit x)
      (hn : numeral 16 x < wordCount64) : LiteralText ('0' :: c :: x) (.int (numeral 16 x))
  | decimal {x : List Char} (hx : Run .digit x) (hn : numeral 10 x < wordCount64) :
      LiteralText x (.int (numeral 10 x))
  | char {x : List Char} {c : Char} (hx : CharBody x) (hc : unescape? x = some [c]) :
      LiteralText (['\''] ++ x ++ ['\'']) (.char c)
  | string {x s : List Char} (hx : Quoted '"' x) (hs : unescape? x = some s) :
      LiteralText (['"'] ++ x ++ ['"']) (.string (String.ofList s))
  | null : LiteralText "null".toList .null

/-- A token that ends here is not read on: no word goes on, and no fraction begins. -/
structure TokenEnd (t : List Char) : Prop where
  word : WordEnd t
  fraction : ∀ c u, t = '.' :: c :: u → c.isDigit = false

/-! ## Runs of digits -/

section
variable {w : World Value} {skip : Option RuleId} {c d : Cursor} {x : List Char} {rule : Rule Value}
  {ctx ctx' : Context Value} {kind : CharKind}

theorem many1_hit (hx : Run kind x) (hc : c.Spans x d) (hd : ∀ ch ∈ d.rest.head?, kind.accepts ch = false) :
    Derives w none (.pattern rule (.many1 (.one kind)) ctx) c (.hit ctx d) := by
  obtain ⟨hne, hall⟩ := hx
  cases x with
  | nil => exact absurd rfl hne
  | cons ch x =>
    obtain ⟨c₁, h₁, h₂⟩ := Cursor.spans_append.1 (show c.Spans ([ch] ++ x) d from hc)
    exact .many1_hit (.one_of_spans h₁ (hall ch List.mem_cons_self))
      (.rounds_chars kind (fun ch' h' => hall ch' (List.mem_cons_of_mem _ h')) h₂ hd false)

theorem many1_inv (h : Derives w none (.pattern rule (.many1 (.one kind)) ctx) c (.hit ctx' d)) :
    ctx' = ctx ∧ ∃ x, Run kind x ∧ c.Spans x d ∧ ∀ ch ∈ d.rest.head?, kind.accepts ch = false := by
  obtain ⟨ctx₁, c₁, h₁, h₂⟩ := Derives.many1_inv h
  obtain ⟨rfl, ch, hch, ha⟩ := Derives.one_inv h₁
  obtain ⟨rfl, x, hx, hall, hend⟩ := Derives.rounds_chars_inv h₂
  refine ⟨rfl, [ch] ++ x, ⟨by simp, ?_⟩, hch.trans hx, hend⟩
  intro ch' h'
  rcases List.mem_cons.1 h' with rfl | h'
  · exact ha
  · exact hall ch' h'

theorem lexical_call_inv {name : String} {p : Pattern} (hw : w.rules = table)
    (h : Rule.new name p ∈ (Lexical.grammar : GrammarDecl Value).rules) (hn : calledName name = name)
    (hc : rule.preCall? name = none) (hd : Derives w skip (.pattern rule (aimed (.rule name)) ctx) c (.hit ctx' d)) :
    ctx' = ctx ∧ ∃ ctx₁, Derives w skip (.pattern (lexical name p) (aimed p) ⟨[], none, c.offset⟩) c (.hit ctx₁ d) := by
  have ht : (⟨name, name, 0, some (idOf (calledName name))⟩ : Call).target = some (idOf name) := by rw [hn]
  have ha : rule.argumentsOf ⟨name, name, 0, some (idOf (calledName name))⟩ ctx = [] := by
    simp only [Rule.argumentsOf, hc]
  obtain ⟨ctx₁, h₁, rfl⟩ := Derives.call_inv ht (hw ▸ table_lexical h) hd
  rw [ha] at h₁
  exact ⟨rfl, ctx₁, Derives.rule_inv (hw ▸ table_lexical h) h₁⟩

theorem digits_mem : Rule.new "digit_sequence" (.token (.many1 (.one .digit))) ∈
    (Lexical.grammar : GrammarDecl Value).rules := by
  simp [Lexical.grammar]

theorem digits_hit (hw : w.rules = table) (hp : rule.preCall? "digit_sequence" = none) (hx : Run .digit x)
    (hc : c.Spans x d) (hd : ∀ ch ∈ d.rest.head?, ch.isDigit = false) :
    Derives w skip (.pattern rule (aimed (.rule "digit_sequence")) ctx) c (.hit ctx d) :=
  lexical_call hw digits_mem rfl hp (.token (many1_hit hx hc hd))

theorem digits_miss (hw : w.rules = table) (hp : rule.preCall? "digit_sequence" = none)
    (hc : ∀ ch ∈ c.rest.head?, ch.isDigit = false) :
    Derives w skip (.pattern rule (aimed (.rule "digit_sequence")) ctx) c (.miss ctx) :=
  lexical_call hw digits_mem rfl hp (.token (.many1_miss (.one_of_head hc)))

theorem digits_inv (hw : w.rules = table) (hp : rule.preCall? "digit_sequence" = none)
    (h : Derives w skip (.pattern rule (aimed (.rule "digit_sequence")) ctx) c (.hit ctx' d)) :
    ctx' = ctx ∧ ∃ x, Run .digit x ∧ c.Spans x d ∧ ∀ ch ∈ d.rest.head?, ch.isDigit = false := by
  obtain ⟨rfl, ctx₁, h₁⟩ := lexical_call_inv hw digits_mem rfl hp h
  obtain ⟨-, x, hx⟩ := many1_inv (Derives.token_inv h₁)
  exact ⟨rfl, x, hx⟩

/-! ## Numbers -/

/-- Membership in a set of single chars. -/
theorem accepts_singles (cs : List Char) (ch : Char) :
    (cs.map fun a => (a, a)).any (fun r => r.1 ≤ ch && ch ≤ r.2) = cs.contains ch := by
  induction cs with
  | nil => rfl
  | cons a cs ih => rw [List.map_cons, List.any_cons, List.contains_cons, ih, CharSet.accepts_exactly_range]

theorem accepts_exponent (ch : Char) :
    (CharKind.oneOf (.ofText "eE")).accepts ch = true ↔ ch = 'e' ∨ ch = 'E' := by
  show ((['e', 'E'].map fun a => (a, a)).any (fun r => r.1 ≤ ch && ch ≤ r.2) != false) = true ↔ _
  rw [accepts_singles]
  simp

theorem accepts_sign (ch : Char) : (CharKind.oneOf (.ofText "+-")).accepts ch = true ↔ ch = '+' ∨ ch = '-' := by
  show ((['+', '-'].map fun a => (a, a)).any (fun r => r.1 ≤ ch && ch ≤ r.2) != false) = true ↔ _
  rw [accepts_singles]
  simp

theorem run_head {kind : CharKind} (hx : Run kind x) : ∃ ch y, x = ch :: y ∧ kind.accepts ch = true := by
  obtain ⟨hne, hall⟩ := hx
  cases x with
  | nil => exact absurd rfl hne
  | cons ch x => exact ⟨ch, x, rfl, hall ch List.mem_cons_self⟩

theorem isDigit_sign {ch : Char} (h : ch.isDigit = true) : (CharKind.oneOf (.ofText "+-")).accepts ch = false := by
  rw [Bool.eq_false_iff, ne_eq, accepts_sign]
  rintro (rfl | rfl) <;> cases h

theorem exponent_hit (hw : w.rules = table) (hp : rule.preCall? "digit_sequence" = none) (hx : Exponent x)
    (hc : c.Spans x d) (hd : ∀ ch ∈ d.rest.head?, ch.isDigit = false) :
    Derives w none (.pattern rule (aimed Literals.exponent) ctx) c (.hit ctx d) := by
  obtain ⟨he, hs, hx⟩ := hx
  rename_i e sign x
  obtain ⟨c₂, h₁₂, h₃⟩ := Cursor.spans_append.1 hc
  obtain ⟨c₁, h₁, h₂⟩ := Cursor.spans_append.1 (show c.Spans ([e] ++ sign) c₂ from h₁₂)
  have hsign : Derives w none (.pattern rule (.opt (.set "+-")) ctx) c₁ (.hit ctx c₂) := by
    rcases hs with rfl | hs
    · obtain rfl := h₂.unique .rfl
      refine .opt_miss (.one_of_head fun ch h => ?_)
      obtain ⟨ch', y, rfl, hdig⟩ := run_head hx
      rw [h₃.rest] at h
      cases h
      exact isDigit_sign hdig
    · rcases hs with rfl | rfl <;> exact .opt_hit (.one_of_spans h₂ ((accepts_sign _).2 (by simp)))
  exact .seq_tight (.seq_tight (.one_of_spans h₁ ((accepts_exponent e).2 he)) hsign) (digits_hit hw hp hx h₃ hd)

theorem exponent_miss (hc : ∀ ch ∈ c.rest.head?, ch ≠ 'e' ∧ ch ≠ 'E') :
    Derives w none (.pattern rule (aimed Literals.exponent) ctx) c (.miss ctx) := by
  refine .seq_first (.seq_first (.one_of_head fun ch h => ?_))
  rw [Bool.eq_false_iff, ne_eq, accepts_exponent, not_or]
  exact hc ch h

theorem exponent_inv (hw : w.rules = table) (hp : rule.preCall? "digit_sequence" = none)
    (h : Derives w none (.pattern rule (aimed Literals.exponent) ctx) c (.hit ctx' d)) :
    ctx' = ctx ∧ ∃ x, Exponent x ∧ c.Spans x d := by
  obtain ⟨ctx₂, c₂, h₁₂, h₃⟩ := Derives.seq_tight_inv h
  obtain ⟨ctx₁, c₁, h₁, h₂⟩ := Derives.seq_tight_inv h₁₂
  obtain ⟨rfl, e, he, hacc⟩ := Derives.one_inv h₁
  obtain ⟨rfl, x, hx, hspan, -⟩ := digits_inv hw hp h₃
  rw [accepts_exponent] at hacc
  obtain h₂ | ⟨h₂, rfl⟩ := Derives.opt_inv h₂
  · obtain ⟨rfl, ch, hch, hsign⟩ := Derives.one_inv h₂
    rw [accepts_sign] at hsign
    exact ⟨rfl, _, .mk hacc (.inr (by simpa using hsign)) hx, (he.trans hch).trans hspan⟩
  · cases h₂
    exact ⟨rfl, _, .mk hacc (.inl rfl) hx, (he.trans .rfl).trans hspan⟩

def floatRule : Rule Value := linked Literals.grammarName Literals.floatingRule

theorem table_float : table[idOf "FloatingLiteral"]? = some floatRule :=
  table_idOf Literals.grammar (by simp [registry_grammars]) Literals.floatingRule (by simp [Literals.grammar])

/-- Numbers with a fraction or an exponent, as patterns. -/
def fractionForm : Pattern :=
  .seq (.seq (.seq (.rule "digit_sequence") (.char '.')) (.rule "digit_sequence")) (.opt Literals.exponent)

def exponentForm : Pattern := .seq (.rule "digit_sequence") Literals.exponent

theorem isWordChar_of_digit {ch : Char} (h : ch.isDigit = true) : Text.isWordChar ch = true := by
  have hascii : Text.isAscii ch = true := by
    simp only [Char.isDigit, Bool.and_eq_true, decide_eq_true_eq] at h
    have hle : ch.val.toNat ≤ 57 := h.2
    exact decide_eq_true (Nat.lt_of_le_of_lt hle (by decide))
  simp [Text.isWordChar, Text.isAlphanumeric, hascii, Char.isAlphanum, h]

theorem isWordChar_of_hexDigit {ch : Char} (h : Text.isHexDigit ch = true) : Text.isWordChar ch = true := by
  simp only [Text.isHexDigit, Bool.or_eq_true, Bool.and_eq_true, decide_eq_true_eq] at h
  obtain (hd | ⟨hl, hu⟩) | ⟨hl, hu⟩ := h
  · exact isWordChar_of_digit hd
  all_goals
    have hlower : _ ≤ ch.val.toNat := hl
    have hupper : ch.val.toNat ≤ _ := hu
    have hascii : Text.isAscii ch = true := decide_eq_true (Nat.lt_of_le_of_lt hupper (by decide))
    have halpha : ch.isAlpha = true := by
      delta Char.isAlpha Char.isUpper Char.isLower
      simp only [ge_iff_le, UInt32.le_iff_toNat_le, Bool.or_eq_true, Bool.and_eq_true, decide_eq_true_eq]
      simp at hlower hupper ⊢
      omega
    simp [Text.isWordChar, Text.isAlphanumeric, hascii, Char.isAlphanum, halpha]

theorem TokenEnd.digit {t : List Char} (h : TokenEnd t) : ∀ ch ∈ t.head?, ch.isDigit = false := by
  intro ch hch
  have := h.word ch hch
  cases hd : ch.isDigit with
  | false => rfl
  | true => exact (isWordChar_of_digit hd).symm.trans this

theorem TokenEnd.exponent {t : List Char} (h : TokenEnd t) : ∀ ch ∈ t.head?, ch ≠ 'e' ∧ ch ≠ 'E' := by
  intro ch hch
  have := h.word ch hch
  constructor <;> rintro rfl <;> exact Bool.noConfusion this

theorem TokenEnd.hexDigit {t : List Char} (h : TokenEnd t) : ∀ ch ∈ t.head?, Text.isHexDigit ch = false := by
  intro ch hch
  have := h.word ch hch
  cases hx : Text.isHexDigit ch with
  | false => rfl
  | true => exact (isWordChar_of_hexDigit hx).symm.trans this

theorem Exponent.head {p : List Char} (hp : Exponent p) : ∃ ch y, p = ch :: y ∧ (ch = 'e' ∨ ch = 'E') := by
  obtain ⟨he, -, -⟩ := hp
  exact ⟨_, _, rfl, he⟩

theorem FloatText.head (hx : FloatText x) : ∃ ch y, x = ch :: y ∧ ch.isDigit = true := by
  obtain ⟨ha, -, -⟩ | ⟨ha, -⟩ := hx <;>
  · obtain ⟨ch, y, rfl, hdigit⟩ := run_head ha
    exact ⟨ch, _, rfl, hdigit⟩

theorem float_hit (hw : w.rules = table) (hx : FloatText x) (hc : c.Spans x d) (hd : TokenEnd d.rest) :
    Yields w skip "FloatingLiteral" [] c (.literal (.float (floatValue x))) d := by
  obtain ⟨ctx, hctx⟩ : ∃ ctx : Context Value, ctx = ⟨[], none, c.offset⟩ := ⟨_, rfl⟩
  have hform : Derives w none (.pattern floatRule (aimed (.alt fractionForm exponentForm)) ctx) c (.hit ctx d) := by
    obtain ⟨ha, hb, hp⟩ | ⟨ha, hp⟩ := hx
    · obtain ⟨c₃, h₁₂₃, h₄⟩ := Cursor.spans_append.1 hc
      obtain ⟨c₂, h₁₂, h₃⟩ := Cursor.spans_append.1 h₁₂₃
      obtain ⟨c₁, h₁, h₂⟩ := Cursor.spans_append.1 h₁₂
      have hdot : ∀ ch ∈ c₁.rest.head?, ch.isDigit = false := by rw [h₂.rest]; rintro _ ⟨⟩; rfl
      have hwhole : Derives w none (.pattern floatRule (aimed (.seq (.rule "digit_sequence") (.char '.'))) ctx) c
          (.hit ctx c₂) := .seq_tight (digits_hit hw rfl ha h₁ hdot) (.char_of_spans h₂)
      rcases hp with rfl | hp
      · obtain rfl := h₄.unique .rfl
        exact .alt_first (.seq_tight (.seq_tight hwhole (digits_hit hw rfl hb h₃ hd.digit))
          (.opt_miss (exponent_miss hd.exponent)))
      · have hexp : ∀ ch ∈ c₃.rest.head?, ch.isDigit = false := by
          obtain ⟨ch, y, rfl, hch⟩ := hp.head
          rw [h₄.rest]
          rintro _ ⟨⟩
          rcases hch with rfl | rfl <;> rfl
        exact .alt_first (.seq_tight (.seq_tight hwhole (digits_hit hw rfl hb h₃ hexp))
          (.opt_hit (exponent_hit hw rfl hp h₄ hd.digit)))
    · obtain ⟨c₁, h₁, h₂⟩ := Cursor.spans_append.1 hc
      obtain ⟨ch, y, rfl, hch⟩ := hp.head
      have hexp : ∀ ch ∈ c₁.rest.head?, ch.isDigit = false := by
        rw [h₂.rest]
        rintro _ ⟨⟩
        rcases hch with rfl | rfl <;> rfl
      have hwhole : Derives w none (.pattern floatRule (aimed (.rule "digit_sequence")) ctx) c (.hit ctx c₁) :=
        digits_hit hw rfl ha h₁ hexp
      have hdot : c₁.rest.head? ≠ some '.' := by
        rw [h₂.rest]
        rcases hch with rfl | rfl <;> simp
      exact .alt_second (.seq_first (.seq_first (.seq_second hwhole .skip_none (.char_of_head hdot))))
        (.seq_tight hwhole (exponent_hit hw rfl hp h₂ hd.digit))
  subst hctx
  refine yields_of hw table_float rfl (.act_pass (.token hform) rfl rfl) ?_
  rw [w.matched_of_spans hc]
  simp [Literals.floating, Literals.setLiteral, Context.setValue]

/-- Digits before a token may end are no number with a fraction or an exponent. -/
theorem float_miss_digits (hw : w.rules = table) (hx : Run .digit x) (hc : c.Spans x d)
    (hd : ∀ ch ∈ d.rest.head?, ch.isDigit = false ∧ ch ≠ 'e' ∧ ch ≠ 'E')
    (hdot : ∀ ch u, d.rest = '.' :: ch :: u → ch.isDigit = false) : Misses w skip "FloatingLiteral" [] c := by
  obtain ⟨ctx, hctx⟩ : ∃ ctx : Context Value, ctx = ⟨[], none, c.offset⟩ := ⟨_, rfl⟩
  have hwhole : Derives w none (.pattern floatRule (aimed (.rule "digit_sequence")) ctx) c (.hit ctx d) :=
    digits_hit hw rfl hx hc fun ch h => (hd ch h).1
  have hfraction : Derives w none (.pattern floatRule (aimed fractionForm) ctx) c (.miss ctx) := by
    by_cases hr : d.rest.head? = some '.'
    · obtain ⟨e, he⟩ := Cursor.exists_spans (c := d) (x := ['.']) (by
        cases ht : d.rest with
        | nil => rw [ht] at hr; cases hr
        | cons ch t => rw [ht] at hr; cases hr; exact ⟨t, rfl⟩)
      refine .seq_first (.seq_second (.seq_tight hwhole (.char_of_spans he)) .skip_none (digits_miss hw rfl ?_))
      intro ch hch
      cases ht : e.rest with
      | nil => rw [ht] at hch; cases hch
      | cons ch' t =>
        rw [ht] at hch
        cases hch
        exact hdot ch t (by rw [he.rest, ht]; rfl)
    · exact .seq_first (.seq_first (.seq_second hwhole .skip_none (.char_of_head hr)))
  have hexponent : Derives w none (.pattern floatRule (aimed exponentForm) ctx) c (.miss ctx) :=
    .seq_second hwhole .skip_none (exponent_miss fun ch h => (hd ch h).2)
  subst hctx
  exact misses_of hw table_float rfl (.act_miss (.token (.alt_second hfraction hexponent)))

theorem float_miss (hw : w.rules = table) (hc : ∀ ch ∈ c.rest.head?, ch.isDigit = false) :
    Misses w skip "FloatingLiteral" [] c :=
  misses_of hw table_float rfl (.act_miss (.token (.alt_second
    (.seq_first (.seq_first (.seq_first (digits_miss hw rfl hc)))) (.seq_first (digits_miss hw rfl hc)))))

theorem float_inv (hw : w.rules = table) {v : Value} (h : Yields w skip "FloatingLiteral" [] c v d) :
    ∃ x, FloatText x ∧ c.Spans x d ∧ v = .literal (.float (floatValue x)) := by
  obtain ⟨ctx, hv, h⟩ := h
  obtain ⟨ctx₁, h, hact⟩ := Derives.act_inv rfl (Derives.rule_inv (hw ▸ table_float) h)
  have htext : ∃ x, FloatText x ∧ c.Spans x d := by
    obtain h | ⟨ctx₂, -, h⟩ := Derives.alt_inv (Derives.token_inv h)
    · obtain ⟨_, c₃, h₁₂₃, h₄⟩ := Derives.seq_tight_inv h
      obtain ⟨_, c₂, h₁₂, h₃⟩ := Derives.seq_tight_inv h₁₂₃
      obtain ⟨_, c₁, h₁, h₂⟩ := Derives.seq_tight_inv h₁₂
      obtain ⟨rfl, a, ha, hspan₁, -⟩ := digits_inv hw rfl h₁
      obtain ⟨rfl, hspan₂⟩ := Derives.char_inv h₂
      obtain ⟨rfl, b, hb, hspan₃, -⟩ := digits_inv hw rfl h₃
      obtain h₄ | ⟨-, rfl⟩ := Derives.opt_inv h₄
      · obtain ⟨rfl, p, hp, hspan₄⟩ := exponent_inv hw rfl h₄
        exact ⟨_, .fraction ha hb (.inr hp), ((hspan₁.trans hspan₂).trans hspan₃).trans hspan₄⟩
      · exact ⟨_, .fraction ha hb (.inl rfl), ((hspan₁.trans hspan₂).trans hspan₃).trans .rfl⟩
    · obtain ⟨_, c₁, h₁, h₂⟩ := Derives.seq_tight_inv h
      obtain ⟨rfl, a, ha, hspan₁, -⟩ := digits_inv hw rfl h₁
      obtain ⟨rfl, p, hp, hspan₂⟩ := exponent_inv hw rfl h₂
      exact ⟨_, .exponent ha hp, hspan₁.trans hspan₂⟩
  obtain ⟨x, hx, hspan⟩ := htext
  refine ⟨x, hx, hspan, ?_⟩
  rw [w.matched_of_spans hspan] at hact
  cases hact
  simpa [Literals.floating, Literals.setLiteral, Context.setValue] using hv.symm

def integerRule : Rule Value := linked Literals.grammarName Literals.integer

theorem table_integer : table[idOf "IntegerLiteral"]? = some integerRule :=
  table_idOf Literals.grammar (by simp [registry_grammars]) Literals.integer (by simp [Literals.grammar])

def hexForm : Pattern := .token (.seq (.alt (.text "0x") (.text "0X")) (.many1 (.one .hexDigit)))

theorem hex_mem : Rule.new "hex" hexForm ∈ (Lexical.grammar : GrammarDecl Value).rules := by
  simp [Lexical.grammar, hexForm]

theorem uint_mem : Rule.new "uint" (.rule "digit_sequence") ∈ (Lexical.grammar : GrammarDecl Value).rules := by
  simp [Lexical.grammar]

theorem hex_call_hit (hw : w.rules = table) {ch : Char} (hch : ch = 'x' ∨ ch = 'X') (hx : Run .hexDigit x)
    (hc : c.Spans ('0' :: ch :: x) d) (hd : ∀ ch ∈ d.rest.head?, Text.isHexDigit ch = false) :
    Derives w skip (.pattern integerRule (aimed (.rule "hex")) ctx) c (.hit ctx d) := by
  obtain ⟨c₁, h₁, h₂⟩ := Cursor.spans_append.1 (show c.Spans (['0', ch] ++ x) d from hc)
  refine lexical_call_hit hw hex_mem rfl rfl (.token (.seq_tight ?_ (many1_hit hx h₂ hd)))
  rcases hch with rfl | rfl
  · exact .alt_first (.text_of_spans h₁)
  · exact .alt_second (.text_of_no_match (by rw [h₁.rest]; simp)) (.text_of_spans h₁)

theorem hex_call_miss (hw : w.rules = table) (hc : ¬ ['0', 'x'] <+: c.rest ∧ ¬ ['0', 'X'] <+: c.rest) :
    Derives w skip (.pattern integerRule (aimed (.rule "hex")) ctx) c (.miss ctx) :=
  lexical_call hw hex_mem rfl rfl (.token (.seq_first
    (.alt_second (.text_of_no_match hc.1) (.text_of_no_match hc.2))))

theorem setInt_fits {text : String} {n : Nat} (hn : n < wordCount64) :
    Literals.setInt ctx text n = (.pass, ctx.setValue (.literal (.int n))) := by
  rw [Literals.setInt, if_pos hn]
  rfl

theorem setInt_pass {text : String} {n : Nat} (h : Literals.setInt ctx text n = (.pass, ctx')) :
    n < wordCount64 ∧ ctx' = ctx.setValue (.literal (.int n)) := by
  unfold Literals.setInt at h
  split at h
  · next hn => cases h; exact ⟨hn, rfl⟩
  · cases h

theorem hex_hit (hw : w.rules = table) {ch : Char} (hch : ch = 'x' ∨ ch = 'X') (hx : Run .hexDigit x)
    (hn : numeral 16 x < wordCount64) (hc : c.Spans ('0' :: ch :: x) d)
    (hd : ∀ ch ∈ d.rest.head?, Text.isHexDigit ch = false) :
    Yields w skip "IntegerLiteral" [] c (.literal (.int (numeral 16 x))) d := by
  have hact : Literals.hex ⟨[], none, c.offset⟩ (w.matched c d) =
      (.pass, ⟨[], some (.literal (.int (numeral 16 x))), c.offset⟩) := by
    rw [w.matched_of_spans hc, Literals.hex, String.toList_ofList]
    exact setInt_fits hn
  exact yields_of hw table_integer rfl (.alt_first (.act_pass (hex_call_hit hw hch hx hc hd) rfl hact)) rfl

/-- Digits before a token may end are no hexadecimal number. -/
theorem not_hex_of_digits {ch : Char} (hch : ch = 'x' ∨ ch = 'X') (hx : Run .digit x) (hc : c.Spans x d)
    (hd : TokenEnd d.rest) : ¬ ['0', ch] <+: c.rest := by
  rintro ⟨t, ht⟩
  rw [hc.rest] at ht
  obtain ⟨hne, hall⟩ := hx
  rcases x with _ | ⟨a, _ | ⟨b, x⟩⟩
  · exact hne rfl
  · have hword := hd.word ch (by rw [show d.rest = ch :: t by simpa using (List.cons.inj ht).2.symm]; rfl)
    rcases hch with rfl | rfl <;> exact Bool.noConfusion hword
  · obtain rfl : ch = b := by simpa using (List.cons.inj (List.cons.inj ht).2).1
    have hdigit : ch.isDigit = true := hall ch (by simp)
    rcases hch with rfl | rfl <;> exact Bool.noConfusion hdigit

theorem decimal_hit (hw : w.rules = table) (hx : Run .digit x) (hn : numeral 10 x < wordCount64) (hc : c.Spans x d)
    (hd : TokenEnd d.rest) : Yields w skip "IntegerLiteral" [] c (.literal (.int (numeral 10 x))) d := by
  have hact : Literals.decimal ⟨[], none, c.offset⟩ (w.matched c d) =
      (.pass, ⟨[], some (.literal (.int (numeral 10 x))), c.offset⟩) := by
    rw [w.matched_of_spans hc, Literals.decimal, String.toList_ofList]
    exact setInt_fits hn
  exact yields_of hw table_integer rfl (.alt_second (.act_miss (hex_call_miss hw
      ⟨not_hex_of_digits (.inl rfl) hx hc hd, not_hex_of_digits (.inr rfl) hx hc hd⟩))
    (.act_pass (lexical_call_hit hw uint_mem rfl rfl (digits_hit hw rfl hx hc hd.digit)) rfl hact)) rfl

theorem integer_miss (hw : w.rules = table) (hc : ∀ ch ∈ c.rest.head?, ch.isDigit = false) :
    Misses w skip "IntegerLiteral" [] c := by
  have hno : ∀ ch, ¬ ['0', ch] <+: c.rest := by
    rintro ch ⟨t, ht⟩
    exact Bool.noConfusion (hc '0' (by rw [← ht]; rfl))
  exact misses_of hw table_integer rfl (.alt_second (.act_miss (hex_call_miss hw ⟨hno 'x', hno 'X'⟩))
    (.act_miss (lexical_call hw uint_mem rfl rfl (digits_miss hw rfl hc))))

theorem integer_inv (hw : w.rules = table) {v : Value} (h : Yields w skip "IntegerLiteral" [] c v d) :
    ∃ x l, LiteralText x l ∧ c.Spans x d ∧ v = .literal l := by
  obtain ⟨ctx, hv, h⟩ := h
  obtain h | ⟨ctx₁, -, h⟩ := Derives.alt_inv (Derives.rule_inv (hw ▸ table_integer) h)
  · obtain ⟨ctx₁, h, hact⟩ := Derives.act_inv rfl h
    obtain ⟨rfl, ctx₂, h⟩ := lexical_call_inv hw hex_mem rfl rfl h
    obtain ⟨ctx₃, c₁, h₁, h₂⟩ := Derives.seq_tight_inv (Derives.token_inv h)
    obtain ⟨rfl, x, hx, hspan, -⟩ := many1_inv h₂
    have hprefix : ∃ ch, (ch = 'x' ∨ ch = 'X') ∧ c.Spans ['0', ch] c₁ := by
      obtain h₁ | ⟨_, -, h₁⟩ := Derives.alt_inv h₁
      · exact ⟨'x', .inl rfl, (Derives.text_inv h₁).2⟩
      · exact ⟨'X', .inr rfl, (Derives.text_inv h₁).2⟩
    obtain ⟨ch, hch, h₁⟩ := hprefix
    have hall : c.Spans ('0' :: ch :: x) d := h₁.trans hspan
    have hact : Literals.hex _ (w.matched c d) = (.pass, ctx) := hact
    rw [w.matched_of_spans hall, Literals.hex, String.toList_ofList] at hact
    obtain ⟨hn, rfl⟩ := setInt_pass hact
    exact ⟨_, _, .hex hch hx hn, hall, (Option.some.inj hv).symm⟩
  · obtain ⟨ctx₂, h, hact⟩ := Derives.act_inv rfl h
    obtain ⟨rfl, ctx₃, h⟩ := lexical_call_inv hw uint_mem rfl rfl h
    obtain ⟨-, x, hx, hspan, -⟩ := digits_inv hw rfl h
    have hact : Literals.decimal _ (w.matched c d) = (.pass, ctx) := hact
    rw [w.matched_of_spans hspan, Literals.decimal, String.toList_ofList] at hact
    obtain ⟨hn, rfl⟩ := setInt_pass hact
    exact ⟨_, _, .decimal hx hn, hspan, (Option.some.inj hv).symm⟩

/-! ## Escapes -/

theorem accepts_hexMark (ch : Char) : (CharKind.oneOf (.ofText "xX")).accepts ch = true ↔ ch = 'x' ∨ ch = 'X' := by
  show ((['x', 'X'].map fun a => (a, a)).any (fun r => r.1 ≤ ch && ch ≤ r.2) != false) = true ↔ _
  rw [accepts_singles]
  simp

theorem accepts_octal (ch : Char) : (CharKind.oneOf (.ofText "0-7")).accepts ch = Text.isOctalDigit ch := by
  show ([('0', '7')].any (fun r => r.1 ≤ ch && ch ≤ r.2) != false) = _
  simp [Text.isOctalDigit]

def simpleEscapes : CharKind := .oneOf (.ofText "abfnrtv'\"\\\\?")

theorem accepts_simple (ch : Char) : simpleEscapes.accepts ch = true ↔ ch ∈ "abfnrtv'\"\\?".toList := by
  show (("abfnrtv'\"\\?".toList.map fun a => (a, a)).any (fun r => r.1 ≤ ch && ch ≤ r.2) != false) = true ↔ _
  rw [accepts_singles, bne_iff_ne, ne_eq, Bool.not_eq_false, List.contains_iff_mem]

theorem escape_mem : Rule.new "escape" Lexical.escape ∈ (Lexical.grammar : GrammarDecl Value).rules := by
  simp [Lexical.grammar]

/-- The forms of an escape after the backslash. -/
def hexEscape : Pattern := .seq (.set "xX") (.many1 (.one .hexDigit))

def codeEscape : Pattern :=
  .seq (.seq (.seq (.seq (.char 'u') (.one .hexDigit)) (.one .hexDigit)) (.one .hexDigit)) (.one .hexDigit)

def octalEscape : Pattern := .many1 (.set "0-7")

theorem hexEscape_miss (hc : ∀ ch ∈ c.rest.head?, ch ≠ 'x' ∧ ch ≠ 'X') :
    Derives w none (.pattern rule hexEscape ctx) c (.miss ctx) := by
  refine .seq_first (.one_of_head fun ch h => ?_)
  rw [Bool.eq_false_iff, ne_eq, accepts_hexMark, not_or]
  exact hc ch h

theorem codeEscape_miss (hc : c.rest.head? ≠ some 'u') : Derives w none (.pattern rule codeEscape ctx) c (.miss ctx) :=
  .seq_first (.seq_first (.seq_first (.seq_first (.char_of_head hc))))

theorem octalEscape_miss (hc : ∀ ch ∈ c.rest.head?, Text.isOctalDigit ch = false) :
    Derives w none (.pattern rule octalEscape ctx) c (.miss ctx) :=
  .many1_miss (.one_of_head fun ch h => by rw [accepts_octal]; exact hc ch h)

theorem escape_hit (hx : Escape x d.rest.head?) (hc : c.Spans x d) :
    Derives w skip (.pattern (lexical "escape" Lexical.escape) (aimed Lexical.escape) ctx) c (.hit ctx d) := by
  obtain ⟨x, rfl⟩ : ∃ y, x = ['\\'] ++ y := by cases hx <;> exact ⟨_, rfl⟩
  obtain ⟨c₁, h₁, h₂⟩ := Cursor.spans_append.1 hc
  refine .token (.seq_tight (.char_of_spans h₁) (.expect_hit ?_))
  -- The forms differ in the first char after the backslash.
  cases hx with
  | hex hch hx hn =>
    obtain ⟨c₂, h₃, h₄⟩ := Cursor.spans_append.1 (show c₁.Spans ([_] ++ _) d from h₂)
    exact .alt_first (.alt_first (.alt_first (.seq_tight (.one_of_spans h₃ ((accepts_hexMark _).2 hch))
      (many1_hit hx h₄ hn))))
  | code ha hb he hd =>
    obtain ⟨c₂, hu, h₂⟩ := Cursor.spans_append.1 (show c₁.Spans (['u'] ++ [_, _, _, _]) d from h₂)
    obtain ⟨c₃, h₃, h₂⟩ := Cursor.spans_append.1 (show c₂.Spans ([_] ++ [_, _, _]) d from h₂)
    obtain ⟨c₄, h₄, h₂⟩ := Cursor.spans_append.1 (show c₃.Spans ([_] ++ [_, _]) d from h₂)
    obtain ⟨c₅, h₅, h₆⟩ := Cursor.spans_append.1 (show c₄.Spans ([_] ++ [_]) d from h₂)
    refine .alt_first (.alt_first (.alt_second (hexEscape_miss ?_) (.seq_tight (.seq_tight (.seq_tight (.seq_tight
      (.char_of_spans hu) (.one_of_spans h₃ ha)) (.one_of_spans h₄ hb)) (.one_of_spans h₅ he))
      (.one_of_spans h₆ hd))))
    rw [hu.rest]
    rintro _ ⟨⟩
    decide
  | octal hne hall hn =>
    obtain ⟨a, y, rfl⟩ : ∃ a y, x = a :: y := by
      cases x with
      | nil => exact absurd rfl hne
      | cons a y => exact ⟨a, y, rfl⟩
    have ha := hall a List.mem_cons_self
    have hhead : c₁.rest.head? = some a := by rw [h₂.rest]; rfl
    have hrun : Run (.oneOf (.ofText "0-7")) (a :: y) := ⟨hne, fun ch h => by rw [accepts_octal]; exact hall ch h⟩
    refine .alt_first (.alt_second (.alt_second (hexEscape_miss ?_) (codeEscape_miss ?_)) (many1_hit hrun h₂ ?_))
    · rw [hhead]
      rintro _ ⟨⟩
      constructor <;> rintro rfl <;> exact Bool.noConfusion ha
    · rw [hhead]
      rintro ⟨⟩
      exact Bool.noConfusion ha
    · intro ch h
      rw [accepts_octal]
      exact hn ch h
  | simple hch =>
    rename_i a
    have hhead : c₁.rest.head? = some a := by rw [h₂.rest]; rfl
    have ha : a ≠ 'x' ∧ a ≠ 'X' ∧ a ≠ 'u' ∧ Text.isOctalDigit a = false := by
      have hall : "abfnrtv'\"\\?".toList.all (fun ch => ch != 'x' && ch != 'X' && ch != 'u' && !Text.isOctalDigit ch) := by
        decide
      simpa [and_assoc] using List.all_eq_true.1 hall a hch
    refine .alt_second (.alt_second (.alt_second (hexEscape_miss ?_) (codeEscape_miss ?_)) (octalEscape_miss ?_))
      (.one_of_spans h₂ ((accepts_simple a).2 hch)) <;> rw [hhead]
    · rintro _ ⟨⟩
      exact ⟨ha.1, ha.2.1⟩
    · rintro ⟨⟩
      exact ha.2.2.1 rfl
    · rintro _ ⟨⟩
      exact ha.2.2.2

theorem escape_inv (h : Derives w skip (.pattern (lexical "escape" Lexical.escape) (aimed Lexical.escape) ctx) c
    (.hit ctx' d)) : ∃ x, Escape x d.rest.head? ∧ c.Spans x d := by
  obtain ⟨_, c₁, h₁, h₂⟩ := Derives.seq_tight_inv (Derives.token_inv h)
  obtain ⟨rfl, hslash⟩ := Derives.char_inv h₁
  obtain h₂ | ⟨_, -, h₂⟩ := Derives.alt_inv (Derives.expect_inv h₂)
  · obtain h₂ | ⟨_, -, h₂⟩ := Derives.alt_inv h₂
    · obtain h₂ | ⟨_, -, h₂⟩ := Derives.alt_inv h₂
      · obtain ⟨_, c₂, h₃, h₄⟩ := Derives.seq_tight_inv h₂
        obtain ⟨rfl, ch, hch, ha⟩ := Derives.one_inv h₃
        obtain ⟨rfl, x, hx, hspan, hend⟩ := many1_inv h₄
        exact ⟨_, .hex ((accepts_hexMark ch).1 ha) hx hend, hslash.trans (hch.trans hspan)⟩
      · obtain ⟨_, c₅, h₂, h₆⟩ := Derives.seq_tight_inv h₂
        obtain ⟨_, c₄, h₂, h₅⟩ := Derives.seq_tight_inv h₂
        obtain ⟨_, c₃, h₂, h₄⟩ := Derives.seq_tight_inv h₂
        obtain ⟨_, c₂, hu, h₃⟩ := Derives.seq_tight_inv h₂
        obtain ⟨rfl, s₂⟩ := Derives.char_inv hu
        obtain ⟨rfl, a, s₃, ha⟩ := Derives.one_inv h₃
        obtain ⟨rfl, b, s₄, hb⟩ := Derives.one_inv h₄
        obtain ⟨rfl, e, s₅, he⟩ := Derives.one_inv h₅
        obtain ⟨rfl, f, s₆, hf⟩ := Derives.one_inv h₆
        exact ⟨_, .code ha hb he hf, hslash.trans (s₂.trans (s₃.trans (s₄.trans (s₅.trans s₆))))⟩
    · obtain ⟨rfl, x, ⟨hne, hall⟩, hspan, hend⟩ := many1_inv h₂
      exact ⟨_, .octal hne (fun ch h => accepts_octal ch ▸ hall ch h) fun ch h => accepts_octal ch ▸ hend ch h,
        hslash.trans hspan⟩
  · obtain ⟨rfl, ch, hch, ha⟩ := Derives.one_inv h₂
    exact ⟨_, .simple ((accepts_simple ch).1 ha), hslash.trans hch⟩

/-! ## Quoted literals -/

theorem accepts_plain_char (ch : Char) :
    (CharKind.oneOf (.ofText "^\\\\'\\r\\n")).accepts ch = true ↔ Plain '\'' ch := by
  show ((['\\', '\'', '\r', '\n'].map fun a => (a, a)).any (fun r => r.1 ≤ ch && ch ≤ r.2) != true) = true ↔ _
  rw [accepts_singles]
  simp [Plain]

theorem accepts_plain_string (ch : Char) :
    (CharKind.oneOf (.ofText "^\\\\\"\\r\\n")).accepts ch = true ↔ Plain '"' ch := by
  show ((['\\', '"', '\r', '\n'].map fun a => (a, a)).any (fun r => r.1 ≤ ch && ch ≤ r.2) != true) = true ↔ _
  rw [accepts_singles]
  simp [Plain]

theorem Escape.head {next : Option Char} (hx : Escape x next) : x.head? = some '\\' := by
  cases hx <;> rfl

theorem escape_call_hit (hw : w.rules = table) (hp : rule.preCall? "escape" = none) (hx : Escape x d.rest.head?)
    (hc : c.Spans x d) : Derives w skip (.pattern rule (aimed (.rule "escape")) ctx) c (.hit ctx d) :=
  lexical_call_hit hw escape_mem rfl hp (escape_hit hx hc)

theorem escape_call_miss (hw : w.rules = table) (hp : rule.preCall? "escape" = none)
    (hc : c.rest.head? ≠ some '\\') : Derives w skip (.pattern rule (aimed (.rule "escape")) ctx) c (.miss ctx) :=
  lexical_call hw escape_mem rfl hp (.token (.seq_first (.char_of_head hc)))

theorem escape_call_inv (hw : w.rules = table) (hp : rule.preCall? "escape" = none)
    (h : Derives w skip (.pattern rule (aimed (.rule "escape")) ctx) c (.hit ctx' d)) :
    ctx' = ctx ∧ ∃ x, Escape x d.rest.head? ∧ c.Spans x d := by
  obtain ⟨rfl, ctx₁, h⟩ := lexical_call_inv hw escape_mem rfl hp h
  exact ⟨rfl, escape_inv h⟩

theorem char_mem : Rule.new "char" Lexical.charLiteral ∈ (Lexical.grammar : GrammarDecl Value).rules := by
  simp [Lexical.grammar]

theorem string_mem : Rule.new "string" Lexical.stringLiteral ∈ (Lexical.grammar : GrammarDecl Value).rules := by
  simp [Lexical.grammar]

def charItem : Pattern := .alt (.set "^\\\\'\\r\\n") (.rule "escape")

def stringItem : Pattern := .alt (.set "^\\\\\"\\r\\n") (.rule "escape")

theorem charBody_hit (hw : w.rules = table) (hx : CharBody x)
    (hc : c.Spans (['\''] ++ x ++ ['\'']) d) :
    Derives w skip (.pattern (lexical "char" Lexical.charLiteral) (aimed Lexical.charLiteral) ctx) c (.hit ctx d) := by
  obtain ⟨c₂, h₁₂, h₃⟩ := Cursor.spans_append.1 hc
  obtain ⟨c₁, h₁, h₂⟩ := Cursor.spans_append.1 h₁₂
  have hitem : Derives w none (.pattern (lexical "char" Lexical.charLiteral) (aimed charItem) ctx) c₁ (.hit ctx c₂) := by
    rcases hx with ⟨ch, hch, rfl⟩ | hx
    · exact .alt_first (.one_of_spans h₂ ((accepts_plain_char ch).2 hch))
    · refine .alt_second (.one_of_head fun ch h => ?_) (escape_call_hit hw rfl ?_ h₂)
      · obtain rfl : '\\' = ch := by
          rw [h₂.rest, List.head?_append, hx.head] at h
          exact Option.some.inj h
        rfl
      · rw [h₃.rest]
        exact hx
  exact .token (.seq_tight (.seq_tight (.char_of_spans h₁) hitem) (.expect_hit (.char_of_spans h₃)))

theorem charBody_inv (hw : w.rules = table)
    (h : Derives w skip (.pattern (lexical "char" Lexical.charLiteral) (aimed Lexical.charLiteral) ctx) c
      (.hit ctx' d)) : ∃ x, CharBody x ∧ c.Spans (['\''] ++ x ++ ['\'']) d := by
  obtain ⟨_, c₂, h₁₂, h₃⟩ := Derives.seq_tight_inv (Derives.token_inv h)
  obtain ⟨_, c₁, h₁, h₂⟩ := Derives.seq_tight_inv h₁₂
  obtain ⟨-, s₁⟩ := Derives.char_inv h₁
  obtain ⟨-, s₃⟩ := Derives.char_inv (Derives.expect_inv h₃)
  obtain h₂ | ⟨_, -, h₂⟩ := Derives.alt_inv h₂
  · obtain ⟨-, ch, s₂, hch⟩ := Derives.one_inv h₂
    exact ⟨[ch], .inl ⟨ch, (accepts_plain_char ch).1 hch, rfl⟩, (s₁.trans s₂).trans s₃⟩
  · obtain ⟨-, x, hx, s₂⟩ := escape_call_inv hw rfl h₂
    rw [s₃.rest] at hx
    exact ⟨x, .inr hx, (s₁.trans s₂).trans s₃⟩

/-- The rounds over the content of a string. -/
theorem quoted_rounds (hw : w.rules = table) (hx : Quoted '"' x) (hc : c.Spans x d) (hd : d.rest.head? = some '"')
    (first : Bool) :
    Derives w none (.rounds (lexical "string" Lexical.stringLiteral) (aimed stringItem) first ctx) c (.hit ctx d) := by
  induction hx generalizing c first with
  | nil =>
    obtain rfl := hc.unique .rfl
    have hr : d.rest ≠ [] := by rintro hr; rw [hr] at hd; cases hd
    refine .rounds_miss hr (.skip_ite first) (.alt_second (.one_of_head ?_) (escape_call_miss hw rfl ?_)) <;> rw [hd]
    · rintro _ ⟨⟩
      rfl
    · decide
  | plain hch _ ih =>
    obtain ⟨c₁, h₁, h₂⟩ := Cursor.spans_append.1 (show c.Spans ([_] ++ _) d from hc)
    have hr : c.rest ≠ [] := by rw [h₁.rest]; exact nofun
    exact .rounds_hit hr (.skip_ite first) (.alt_first (.one_of_spans h₁ ((accepts_plain_string _).2 hch)))
      (ih h₂ false)
  | escape he _ ih =>
    rename_i e x _
    obtain ⟨c₁, h₁, h₂⟩ := Cursor.spans_append.1 hc
    have hhead : c.rest.head? = some '\\' := by rw [h₁.rest, List.head?_append, he.head]; rfl
    have hr : c.rest ≠ [] := by rintro hr; rw [hr] at hhead; cases hhead
    have hnext : (x ++ ['"']).head? = c₁.rest.head? := by rw [h₂.rest, List.head?_append, List.head?_append, hd]; rfl
    rw [hnext] at he
    refine .rounds_hit hr (.skip_ite first) (.alt_second (.one_of_head ?_) (escape_call_hit hw rfl he h₁)) (ih h₂ false)
    rw [hhead]
    rintro _ ⟨⟩
    rfl

theorem quoted_rounds_inv (hw : w.rules = table) {first : Bool} (hd : d.rest.head? = some '"')
    (h : Derives w none (.rounds (lexical "string" Lexical.stringLiteral) (aimed stringItem) first ctx) c
      (.hit ctx' d)) : ∃ x, Quoted '"' x ∧ c.Spans x d := by
  refine Derives.rounds_rec (M := fun _ _ c => ∃ x, Quoted '"' x ∧ c.Spans x d) h ?_ ?_ ?_
  · exact fun _ _ => ⟨[], .nil, .rfl⟩
  · exact fun _ _ _ _ _ _ => ⟨[], .nil, .rfl⟩
  · rintro first ctx ctx₁ c c₁ c₂ - hs hp ⟨x, hx, hspan⟩
    obtain rfl : c₁ = c := by cases first <;> cases hs <;> rfl
    obtain hp | ⟨_, -, hp⟩ := Derives.alt_inv hp
    · obtain ⟨-, ch, hch, ha⟩ := Derives.one_inv hp
      exact ⟨_, .plain ((accepts_plain_string ch).1 ha) hx, hch.trans hspan⟩
    · obtain ⟨-, e, he, hspan'⟩ := escape_call_inv hw rfl hp
      have hnext : c₂.rest.head? = (x ++ ['"']).head? := by
        rw [hspan.rest, List.head?_append, List.head?_append, hd]; rfl
      rw [hnext] at he
      exact ⟨_, .escape he hx, hspan'.trans hspan⟩

theorem unquote_quoted (q : Char) (x : List Char) : unquote? ([q] ++ x ++ [q]) = some x := by
  cases x with
  | nil => rfl
  | cons ch x =>
    show some ((ch :: (x ++ [q])).dropLast) = _
    rw [← List.cons_append, List.dropLast_concat]

def charRule : Rule Value := linked Literals.grammarName Literals.charRule

theorem table_char : table[idOf "CharLiteral"]? = some charRule :=
  table_idOf Literals.grammar (by simp [registry_grammars]) Literals.charRule (by simp [Literals.grammar])

theorem char_hit (hw : w.rules = table) {ch : Char} (hx : CharBody x) (hch : unescape? x = some [ch])
    (hc : c.Spans (['\''] ++ x ++ ['\'']) d) : Yields w skip "CharLiteral" [] c (.literal (.char ch)) d := by
  have hact : Literals.char ⟨[], none, c.offset⟩ (w.matched c d) =
      (true, ⟨[], some (.literal (.char ch)), c.offset⟩) := by
    simp only [Literals.char, w.matched_of_spans hc, String.toList_ofList, unquote_quoted, Option.bind_some, hch]
    rfl
  exact yields_of hw table_char rfl (.act_true Literals.char rfl
    (lexical_call_hit hw char_mem rfl rfl (charBody_hit hw hx hc)) hact) rfl

theorem char_miss (hw : w.rules = table) (hc : c.rest.head? ≠ some '\'') : Misses w skip "CharLiteral" [] c :=
  misses_of hw table_char rfl (.act_miss (lexical_call hw char_mem rfl rfl
    (.token (.seq_first (.seq_first (.char_of_head hc))))))

theorem char_inv (hw : w.rules = table) {v : Value} (h : Yields w skip "CharLiteral" [] c v d) :
    ∃ x l, LiteralText x l ∧ c.Spans x d ∧ v = .literal l := by
  obtain ⟨ctx, hv, h⟩ := h
  obtain ⟨ctx₁, h, hact⟩ := Derives.act_true_inv Literals.char rfl (Derives.rule_inv (hw ▸ table_char) h)
  obtain ⟨rfl, ctx₂, h⟩ := lexical_call_inv hw char_mem rfl rfl h
  obtain ⟨x, hx, hspan⟩ := charBody_inv hw h
  simp only [Literals.char, w.matched_of_spans hspan, String.toList_ofList, unquote_quoted, Option.bind_some] at hact
  split at hact
  · next ch hch =>
    cases hact
    exact ⟨_, _, .char hx hch, hspan, (Option.some.inj hv).symm⟩
  · cases hact

def stringRule : Rule Value := linked Literals.grammarName Literals.stringRule

theorem table_string : table[idOf "StringLiteral"]? = some stringRule :=
  table_idOf Literals.grammar (by simp [registry_grammars]) Literals.stringRule (by simp [Literals.grammar])

theorem string_hit (hw : w.rules = table) {s : List Char} (hx : Quoted '"' x) (hs : unescape? x = some s)
    (hc : c.Spans (['"'] ++ x ++ ['"']) d) :
    Yields w skip "StringLiteral" [] c (.literal (.string (String.ofList s))) d := by
  have hact : Literals.string ⟨[], none, c.offset⟩ (w.matched c d) =
      (true, ⟨[], some (.literal (.string (String.ofList s))), c.offset⟩) := by
    simp only [Literals.string, w.matched_of_spans hc, String.toList_ofList, unquote_quoted, Option.bind_some, hs]
    rfl
  obtain ⟨c₂, h₁₂, h₃⟩ := Cursor.spans_append.1 hc
  obtain ⟨c₁, h₁, h₂⟩ := Cursor.spans_append.1 h₁₂
  have hquote : c₂.rest.head? = some '"' := by rw [h₃.rest]; rfl
  exact yields_of hw table_string rfl (.act_true Literals.string rfl (lexical_call_hit hw string_mem rfl rfl
    (.token (.seq_tight (.seq_tight (.char_of_spans h₁) (.many (quoted_rounds hw hx h₂ hquote true)))
      (.expect_hit (.char_of_spans h₃))))) hact) rfl

theorem string_miss (hw : w.rules = table) (hc : c.rest.head? ≠ some '"') : Misses w skip "StringLiteral" [] c :=
  misses_of hw table_string rfl (.act_miss (lexical_call hw string_mem rfl rfl
    (.token (.seq_first (.seq_first (.char_of_head hc))))))

theorem string_inv (hw : w.rules = table) {v : Value} (h : Yields w skip "StringLiteral" [] c v d) :
    ∃ x l, LiteralText x l ∧ c.Spans x d ∧ v = .literal l := by
  obtain ⟨ctx, hv, h⟩ := h
  obtain ⟨ctx₁, h, hact⟩ := Derives.act_true_inv Literals.string rfl (Derives.rule_inv (hw ▸ table_string) h)
  obtain ⟨rfl, ctx₂, h⟩ := lexical_call_inv hw string_mem rfl rfl h
  obtain ⟨_, c₂, h₁₂, h₃⟩ := Derives.seq_tight_inv (Derives.token_inv h)
  obtain ⟨_, c₁, h₁, h₂⟩ := Derives.seq_tight_inv h₁₂
  obtain ⟨-, s₁⟩ := Derives.char_inv h₁
  obtain ⟨-, s₃⟩ := Derives.char_inv (Derives.expect_inv h₃)
  obtain ⟨x, hx, s₂⟩ := quoted_rounds_inv hw (by rw [s₃.rest]; rfl) (Derives.many_inv h₂)
  have hspan := (s₁.trans s₂).trans s₃
  simp only [Literals.string, w.matched_of_spans hspan, String.toList_ofList, unquote_quoted, Option.bind_some] at hact
  split at hact
  · next s hs =>
    cases hact
    exact ⟨_, _, .string hx hs, hspan, (Option.some.inj hv).symm⟩
  · cases hact

/-! ## Literals that are words -/

def booleanRule : Rule Value := linked Literals.grammarName Literals.boolean

theorem table_boolean : table[idOf "BooleanLiteral"]? = some booleanRule :=
  table_idOf Literals.grammar (by simp [registry_grammars]) Literals.boolean (by simp [Literals.grammar])

def nullRule : Rule Value := linked Literals.grammarName Literals.null

theorem table_null : table[idOf "NullLiteral"]? = some nullRule :=
  table_idOf Literals.grammar (by simp [registry_grammars]) Literals.null (by simp [Literals.grammar])

theorem boolean_hit (hw : w.rules = table) {b : Bool} (hx : x = (if b then "true" else "false").toList)
    (hc : c.Spans x d) (hd : WordEnd d.rest) : Yields w skip "BooleanLiteral" [] c (.literal (.bool b)) d := by
  cases b with
  | true =>
    subst hx
    exact yields_of hw table_boolean rfl (.alt_first (.act_pass (keyword_hit hc hd) rfl rfl)) rfl
  | false =>
    subst hx
    exact yields_of hw table_boolean rfl (.alt_second
      (.act_miss (keyword_miss_word (by decide) (by decide) hc hd (by decide)))
      (.act_pass (keyword_hit hc hd) rfl rfl)) rfl

theorem null_hit (hw : w.rules = table) (hc : c.Spans "null".toList d) (hd : WordEnd d.rest) :
    Yields w skip "NullLiteral" [] c (.literal .null) d :=
  yields_of hw table_null rfl (.act_pass (keyword_hit hc hd) rfl rfl) rfl

/-- None of the words stands here. -/
def NotAt (words : List String) (c : Cursor) : Prop :=
  ∀ word ∈ words, ∀ d, c.Spans word.toList d → ¬ WordEnd d.rest

theorem notAt_of_noWord {words : List String} (hwords : ∀ word ∈ words, isWord word.toList = true)
    (hc : NoWord c.rest) : NotAt words c := by
  intro word hword d hd _
  have hisWord := hwords word hword
  cases hx : word.toList with
  | nil => rw [hx] at hisWord; cases hisWord
  | cons ch t =>
    rw [hx] at hisWord hd
    have := hc ch (by rw [hd.rest]; rfl)
    rw [(isWord_cons.1 hisWord).1] at this
    cases this

theorem notAt_of_word {words : List String} (hwords : ∀ word ∈ words, isWord word.toList = true)
    (hx : isWord x = true) (hc : c.Spans x d) (hd : WordEnd d.rest) (hne : String.ofList x ∉ words) :
    NotAt words c := by
  intro word hword e he hend
  obtain ⟨rfl, -⟩ := run_unique (all_of_isWord hx) (all_of_isWord (hwords word hword)) hd hend
    (hc.rest.symm.trans he.rest)
  exact hne (by rwa [String.ofList_toList])

theorem boolean_miss (hw : w.rules = table) (hc : NotAt ["true", "false"] c) :
    Misses w skip "BooleanLiteral" [] c :=
  misses_of hw table_boolean rfl (.alt_second (.act_miss (keyword_miss (hc "true" (by simp))))
    (.act_miss (keyword_miss (hc "false" (by simp)))))

theorem null_miss (hw : w.rules = table) (hc : NotAt ["null"] c) : Misses w skip "NullLiteral" [] c :=
  misses_of hw table_null rfl (.act_miss (keyword_miss (hc "null" (by simp))))

theorem keyword_inv {word : String} (h : Derives w skip (.pattern rule (.keyword word) ctx) c (.hit ctx' d)) :
    ctx' = ctx ∧ c.Spans word.toList d ∧ WordEnd d.rest := by
  cases h with
  | keyword_hit h hd =>
    refine ⟨rfl, .after h, fun ch hch => ?_⟩
    rw [Cursor.next?_any, Option.any_eq_false] at hd
    simpa using hd ch hch

theorem boolean_inv (hw : w.rules = table) {v : Value} (h : Yields w skip "BooleanLiteral" [] c v d) :
    ∃ x l, LiteralText x l ∧ c.Spans x d ∧ v = .literal l := by
  obtain ⟨ctx, hv, h⟩ := h
  obtain h | ⟨ctx₁, -, h⟩ := Derives.alt_inv (Derives.rule_inv (hw ▸ table_boolean) h)
  · obtain ⟨ctx₁, hkey, hact⟩ := Derives.act_inv rfl h
    cases hact
    exact ⟨_, _, .true, (keyword_inv hkey).2.1, (Option.some.inj hv).symm⟩
  · obtain ⟨ctx₁, hkey, hact⟩ := Derives.act_inv rfl h
    cases hact
    exact ⟨_, _, .false, (keyword_inv hkey).2.1, (Option.some.inj hv).symm⟩

theorem null_inv (hw : w.rules = table) {v : Value} (h : Yields w skip "NullLiteral" [] c v d) :
    ∃ x l, LiteralText x l ∧ c.Spans x d ∧ v = .literal l := by
  obtain ⟨ctx, hv, h⟩ := h
  obtain ⟨ctx₁, hkey, hact⟩ := Derives.act_inv rfl (Derives.rule_inv (hw ▸ table_null) h)
  cases hact
  exact ⟨_, _, .null, (keyword_inv hkey).2.1, (Option.some.inj hv).symm⟩

/-! ## All literals -/

def literalRule : Rule Value := linked Literals.grammarName Literals.literal

theorem table_literal : table[idOf "Literal"]? = some literalRule :=
  table_idOf Literals.grammar (by simp [registry_grammars]) Literals.literal (by simp [Literals.grammar])

/-- A digit begins no word. -/
theorem isWordStart_of_digit {ch : Char} (h : ch.isDigit = true) : Text.isWordStart ch = false := by
  simp only [Char.isDigit, Bool.and_eq_true, decide_eq_true_eq] at h
  have hle : ch.val.toNat ≤ 57 := h.2
  have hascii : Text.isAscii ch = true := decide_eq_true (Nat.lt_of_le_of_lt hle (by decide))
  have halpha : ch.isAlpha = false := by
    have hupper : ¬ (65 : UInt32) ≤ ch.val := fun h' => by have h' : 65 ≤ ch.val.toNat := h'; omega
    have hlower : ¬ (97 : UInt32) ≤ ch.val := fun h' => by have h' : 97 ≤ ch.val.toNat := h'; omega
    delta Char.isAlpha Char.isUpper Char.isLower
    grind
  have hne : ch ≠ '_' := by rintro rfl; exact absurd hle (by decide)
  simp [Text.isWordStart, Text.isAlphabetic, hascii, halpha, hne]

theorem chooses_literal : Chooses "Literal" Literals.alternatives literalRule where
  place := table_literal
  plain := rfl
  nonempty := by simp [Literals.alternatives]
  definition := aimed_choice (.rule "BooleanLiteral") _
  each := by
    intro name hn
    simp only [Literals.alternatives, List.mem_cons, List.not_mem_nil, or_false] at hn
    rcases hn with rfl | rfl | rfl | rfl | rfl | rfl
    · exact ⟨rfl, rfl, ⟨_, table_boolean, rfl⟩, fun _ _ => rfl⟩
    · exact ⟨rfl, rfl, ⟨_, table_float, rfl⟩, fun _ _ => rfl⟩
    · exact ⟨rfl, rfl, ⟨_, table_integer, rfl⟩, fun _ _ => rfl⟩
    · exact ⟨rfl, rfl, ⟨_, table_char, rfl⟩, fun _ _ => rfl⟩
    · exact ⟨rfl, rfl, ⟨_, table_string, rfl⟩, fun _ _ => rfl⟩
    · exact ⟨rfl, rfl, ⟨_, table_null, rfl⟩, fun _ _ => rfl⟩

section
variable (hw : w.rules = table) {v : Value}
include hw

/-- Where no word begins, only a number or a quoted literal can. -/
theorem boolean_miss_noWord (hc : NoWord c.rest) : Misses w skip "BooleanLiteral" [] c :=
  boolean_miss hw (notAt_of_noWord (by decide) hc)

/-- What is tried before an integer misses it. -/
theorem hex_apart {ch : Char} (hch : ch = 'x' ∨ ch = 'X') (hc : c.Spans ('0' :: ch :: x) d) :
    ∀ n ∈ ["BooleanLiteral", "FloatingLiteral"], Misses w skip n [] c := by
  have hno : NoWord c.rest := by
    rw [hc.rest]
    rintro _ ⟨⟩
    decide
  have hfloat : Misses w skip "FloatingLiteral" [] c := by
    obtain ⟨c₁, h₁, h₂⟩ := Cursor.spans_append.1 (show c.Spans (['0'] ++ ch :: x) d from hc)
    refine float_miss_digits hw ⟨by simp, List.all_eq_true.1 (by decide)⟩ h₁ ?_ ?_ <;> rw [h₂.rest]
    · rintro _ ⟨⟩
      rcases hch with rfl | rfl <;> decide
    · intro a u hdot
      obtain rfl : ch = '.' := (List.cons.inj hdot).1
      rcases hch with h | h <;> cases h
  exact List.forall_mem_cons.2 ⟨boolean_miss_noWord hw hno, List.forall_mem_singleton.2 hfloat⟩

theorem decimal_apart (hx : Run .digit x) (hc : c.Spans x d) (hd : TokenEnd d.rest) :
    ∀ n ∈ ["BooleanLiteral", "FloatingLiteral"], Misses w skip n [] c := by
  have hno : NoWord c.rest := by
    obtain ⟨ch, y, hhead, hdigit⟩ := run_head hx
    rw [hc.rest, hhead]
    rintro _ ⟨⟩
    exact isWordStart_of_digit hdigit
  have hfloat : Misses w skip "FloatingLiteral" [] c :=
    float_miss_digits hw hx hc (fun ch h => ⟨hd.digit ch h, hd.exponent ch h⟩) hd.fraction
  exact List.forall_mem_cons.2 ⟨boolean_miss_noWord hw hno, List.forall_mem_singleton.2 hfloat⟩

theorem literal_hit {l : Literal} (h : LiteralText x l) (hc : c.Spans x d) (hd : TokenEnd d.rest) :
    Yields w skip "Literal" [] c (.literal l) d := by
  cases h with
  | true => exact chooses_literal.first hw [] rfl nofun (boolean_hit (b := true) hw rfl hc hd.word)
  | false => exact chooses_literal.first hw [] rfl nofun (boolean_hit (b := false) hw rfl hc hd.word)
  | float hx =>
    obtain ⟨ch, y, hhead, hdigit⟩ := hx.head
    have hno : NoWord c.rest := by
      rw [hc.rest, hhead]
      rintro _ ⟨⟩
      exact isWordStart_of_digit hdigit
    refine chooses_literal.first hw ["BooleanLiteral"] rfl ?_ (float_hit hw hx hc hd)
    exact List.forall_mem_singleton.2 (boolean_miss_noWord hw hno)
  | hex hch hx hn =>
    exact chooses_literal.first hw ["BooleanLiteral", "FloatingLiteral"] rfl (hex_apart hw hch hc)
      (hex_hit hw hch hx hn hc hd.hexDigit)
  | decimal hx hn =>
    exact chooses_literal.first hw ["BooleanLiteral", "FloatingLiteral"] rfl (decimal_apart hw hx hc hd)
      (decimal_hit hw hx hn hc hd)
  | char hx hch =>
    have hhead : c.rest.head? = some '\'' := by rw [hc.rest]; rfl
    refine chooses_literal.first hw ["BooleanLiteral", "FloatingLiteral", "IntegerLiteral"] rfl ?_
      (char_hit hw hx hch hc)
    exact List.forall_mem_cons.2 ⟨boolean_miss_noWord hw (by unfold NoWord; rw [hhead]; rintro _ ⟨⟩; decide),
      List.forall_mem_cons.2 ⟨float_miss hw (by rw [hhead]; rintro _ ⟨⟩; decide),
        List.forall_mem_singleton.2 (integer_miss hw (by rw [hhead]; rintro _ ⟨⟩; decide))⟩⟩
  | string hx hs =>
    have hhead : c.rest.head? = some '"' := by rw [hc.rest]; rfl
    refine chooses_literal.first hw ["BooleanLiteral", "FloatingLiteral", "IntegerLiteral", "CharLiteral"] rfl ?_
      (string_hit hw hx hs hc)
    exact List.forall_mem_cons.2 ⟨boolean_miss_noWord hw (by unfold NoWord; rw [hhead]; rintro _ ⟨⟩; decide),
      List.forall_mem_cons.2 ⟨float_miss hw (by rw [hhead]; rintro _ ⟨⟩; decide),
        List.forall_mem_cons.2 ⟨integer_miss hw (by rw [hhead]; rintro _ ⟨⟩; decide),
          List.forall_mem_singleton.2 (char_miss hw (by rw [hhead]; decide))⟩⟩⟩
  | null =>
    have hhead : c.rest.head? = some 'n' := by rw [hc.rest]; rfl
    refine chooses_literal.first hw ["BooleanLiteral", "FloatingLiteral", "IntegerLiteral", "CharLiteral",
      "StringLiteral"] rfl ?_ (null_hit hw hc hd.word)
    exact List.forall_mem_cons.2 ⟨boolean_miss hw (notAt_of_word (by decide) (by decide) hc hd.word (by decide)),
      List.forall_mem_cons.2 ⟨float_miss hw (by rw [hhead]; rintro _ ⟨⟩; decide),
        List.forall_mem_cons.2 ⟨integer_miss hw (by rw [hhead]; rintro _ ⟨⟩; decide),
          List.forall_mem_cons.2 ⟨char_miss hw (by rw [hhead]; decide),
            List.forall_mem_singleton.2 (string_miss hw (by rw [hhead]; decide))⟩⟩⟩⟩

theorem literal_inv (h : Yields w skip "Literal" [] c v d) : ∃ x l, LiteralText x l ∧ c.Spans x d ∧ v = .literal l := by
  obtain ⟨name, hname, hy⟩ := chooses_literal.inv hw h
  simp only [Literals.alternatives, List.mem_cons, List.not_mem_nil, or_false] at hname
  rcases hname with rfl | rfl | rfl | rfl | rfl | rfl
  · exact boolean_inv hw hy
  · obtain ⟨x, hx, hspan, hv⟩ := float_inv hw hy
    exact ⟨x, _, .float hx, hspan, hv⟩
  · exact integer_inv hw hy
  · exact char_inv hw hy
  · exact string_inv hw hy
  · exact null_inv hw hy

theorem literal_miss (hword : NotAt ["true", "false", "null"] c)
    (hhead : ∀ ch ∈ c.rest.head?, ch.isDigit = false ∧ ch ≠ '\'' ∧ ch ≠ '"') : Misses w skip "Literal" [] c := by
  refine chooses_literal.none hw fun n hn => ?_
  simp only [Literals.alternatives, List.mem_cons, List.not_mem_nil, or_false] at hn
  rcases hn with rfl | rfl | rfl | rfl | rfl | rfl
  · exact boolean_miss hw fun word h => hword word (by grind)
  · exact float_miss hw fun ch h => (hhead ch h).1
  · exact integer_miss hw fun ch h => (hhead ch h).1
  · exact char_miss hw fun h => (hhead _ h).2.1 rfl
  · exact string_miss hw fun h => (hhead _ h).2.2 rfl
  · exact null_miss hw fun word h => hword word (by grind)

end

end

end PegFront.Cminor
