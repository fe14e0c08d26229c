import PegFront.Proofs.Cminor.Reads

/-!
# The rules for expressions

Rules that read an operand and then go on in rounds do so from the place where the operand ends, whatever gap comes
next (`seq_many_hit`, `seq_many_inv`). So the rules of the binary levels and the rule for suffixes go on from
every expression they have read so far, which is what `Extends` says.
-/

namespace PegFront.Cminor

open Expressions

section
variable {w : World Value} {c c₁ d : Cursor} {rule : Rule Value} {a b : Pattern} {ctx ctx₁ ctx₂ : Context Value}

/-! ## An operand and rounds after it -/

/-- A part that can be repeated: it takes up some text, and misses at the end of the text. -/
structure Repeats (w : World Value) (rule : Rule Value) (b : Pattern) : Prop where
  ending : ∀ ctx c, c.rest = [] → Derives w blanks (.pattern rule b ctx) c (.miss ctx)
  moving : ∀ ctx ctx' c d, Derives w blanks (.pattern rule b ctx) c (.hit ctx' d) → d.offset ≠ c.offset

theorem seq_many_hit (hw : w.rules = table) (hb : Repeats w rule b)
    (ha : Derives w blanks (.pattern rule a ctx) c (.hit ctx₁ c₁))
    (hr : Derives w blanks (.rounds rule b false ctx₁) c₁ (.hit ctx₂ d)) :
    Derives w blanks (.pattern rule (.seq a (.many b)) ctx) c (.hit ctx₂ d) := by
  cases hr with
  | rounds_end hc =>
    have hs : Derives w blanks (.skip ctx₁) c₁ (.hit ctx₁ c₁) := skip_of_afterGap hw .rfl ctx₁ (by rw [hc]; rfl)
    exact .seq_empty ha hs (.many (.rounds_end hc)) rfl
  | rounds_miss hc hs h =>
    rename_i c₂
    by_cases hr : c₂.rest = []
    · cases h.unique (hb.ending ctx₁ c₂ hr)
      exact .seq_empty ha hs (.many (.rounds_end hr)) rfl
    · exact .seq_empty ha hs (.many (.rounds_miss hr .skip_none h)) rfl
  | rounds_hit hc hs h hr =>
    rename_i ctx₃ c₂ c₃
    have hrest : c₂.rest ≠ [] := by
      intro hrest
      cases h.unique (hb.ending ctx₁ c₂ hrest)
    refine .seq_hit ha hs (.many (.rounds_hit hrest .skip_none h hr)) ?_
    have hmove := hb.moving _ _ _ _ h
    obtain ⟨x, hx⟩ := h.spans
    obtain ⟨y, hy⟩ := hr.spans
    have := hx.offset
    have := hy.offset
    omega

/-- Rounds that fail for good make the sequence fail so. -/
theorem seq_many_stop (hb : Repeats w rule b) (ha : Derives w blanks (.pattern rule a ctx) c (.hit ctx₁ c₁))
    (hr : Derives w blanks (.rounds rule b false ctx₁) c₁ .stop) :
    Derives w blanks (.pattern rule (.seq a (.many b)) ctx) c .stop := by
  have hrest : ∀ {c₂ : Cursor} {r : Answer Value}, Derives w blanks (.pattern rule b ctx₁) c₂ r → r ≠ .miss ctx₁ →
      c₂.rest ≠ [] := fun h hne hnil => hne (h.unique (hb.ending ctx₁ _ hnil))
  cases hr with
  | rounds_hit hc hs h hr => exact .seq_stop_second ha hs (.many (.rounds_hit (hrest h nofun) .skip_none h hr))
  | rounds_stop_skip hc hs => exact .seq_stop_skip ha hs
  | rounds_stop hc hs h => exact .seq_stop_second ha hs (.many (.rounds_stop (hrest h nofun) .skip_none h))

theorem seq_many_inv (hb : Repeats w rule b)
    (h : Derives w blanks (.pattern rule (.seq a (.many b)) ctx) c (.hit ctx₂ d)) :
    ∃ ctx₁ c₁, Derives w blanks (.pattern rule a ctx) c (.hit ctx₁ c₁) ∧
      Derives w blanks (.rounds rule b false ctx₁) c₁ (.hit ctx₂ d) := by
  obtain ⟨ctx₁, c₁, c₂, e, ha, hs, hm, hd⟩ := Derives.seq_inv h
  refine ⟨ctx₁, c₁, ha, ?_⟩
  obtain ⟨x, hx⟩ := hs.spans
  have hfirst : c₁.rest = [] → c₂.rest = [] := fun h₁ => by
    have := hx.rest
    rw [h₁] at this
    exact (List.append_eq_nil_iff.1 this.symm).2
  have hm := Derives.many_inv hm
  cases hm with
  | rounds_end hc =>
    obtain rfl : d = c₁ := by
      rcases hd with ⟨hne, -⟩ | ⟨-, hd⟩
      · exact absurd rfl hne
      · exact hd
    by_cases hr : d.rest = []
    · exact .rounds_end hr
    · exact .rounds_miss hr hs (hb.ending _ _ hc)
  | rounds_miss hc hs' h =>
    cases hs'
    obtain rfl : d = c₁ := by
      rcases hd with ⟨hne, -⟩ | ⟨-, hd⟩
      · exact absurd rfl hne
      · exact hd
    exact .rounds_miss (fun hr => hc (hfirst hr)) hs h
  | rounds_hit hc hs' h hr =>
    cases hs'
    have hmove := hb.moving _ _ _ _ h
    obtain ⟨y, hy⟩ := h.spans
    obtain ⟨z, hz⟩ := hr.spans
    obtain rfl : d = e := by
      rcases hd with ⟨-, hd⟩ | ⟨rfl, -⟩
      · exact hd
      · have := hy.offset
        have := hz.offset
        omega
    exact .rounds_hit (fun hr => hc (hfirst hr)) hs h hr

end

/-! ## The rules -/

/-- The rule of a level. -/
def levelName : Nat → String
  | 0 => "Disjunction"
  | 1 => "Conjunction"
  | 2 => "Equality"
  | 3 => "Relational"
  | 4 => "Shift"
  | 5 => "Additive"
  | 6 => "Multiplicative"
  | 7 => "Prefix"
  | 8 => "Postfix"
  | _ => "Primary"

/-- A call of the rule with a name. -/
def callAt (label name : String) (arity : Nat) : Call := ⟨label, name, arity, some (idOf name)⟩

def binaryRule (k : Nat) : Rule Value :=
  linked Expressions.grammarName (binaryLevel (levelName k) (levelName (k + 1)) (operators k))

/-- An operator of a level and its right operand. -/
def binaryBody (k : Nat) : Pattern :=
  .seq (.act "Op" (operators k)) (.expect (.call (callAt "Right" (levelName (k + 1)) 1)))

theorem binaryRule_definition {k : Nat} (hk : k < 7) :
    (binaryRule k).definition = .seq (.call (callAt "Left" (levelName (k + 1)) 1)) (.many (binaryBody k)) := by
  match k, hk with
  | 0, _ | 1, _ | 2, _ | 3, _ | 4, _ | 5, _ | 6, _ => rfl

theorem table_binary {k : Nat} (hk : k < 7) : table[idOf (levelName k)]? = some (binaryRule k) := by
  have hmem : binaryLevel (levelName k) (levelName (k + 1)) (operators k) ∈ Expressions.grammar.rules := by
    match k, hk with
    | 0, _ | 1, _ | 2, _ | 3, _ | 4, _ | 5, _ | 6, _ =>
      simp [Expressions.grammar, binaryLevels, operators, levelName]
  exact table_idOf Expressions.grammar (by simp [registry_grammars]) _ hmem

def prefixLevel : Rule Value := linked Expressions.grammarName Expressions.prefixRule

theorem table_prefix : table[idOf "Prefix"]? = some prefixLevel :=
  table_idOf Expressions.grammar (by simp [registry_grammars]) Expressions.prefixRule (by simp [Expressions.grammar])

def postfixLevel : Rule Value := linked Expressions.grammarName Expressions.postfixRule

theorem table_postfix : table[idOf "Postfix"]? = some postfixLevel :=
  table_idOf Expressions.grammar (by simp [registry_grammars]) Expressions.postfixRule (by simp [Expressions.grammar])

def primaryLevel : Rule Value := linked Expressions.grammarName Expressions.primary

theorem table_primary : table[idOf "Primary"]? = some primaryLevel :=
  table_idOf Expressions.grammar (by simp [registry_grammars]) Expressions.primary (by simp [Expressions.grammar])

def expressionLevel : Rule Value := linked Expressions.grammarName Expressions.expression

theorem table_expression : table[idOf "Expression"]? = some expressionLevel :=
  table_idOf Expressions.grammar (by simp [registry_grammars]) Expressions.expression (by simp [Expressions.grammar])

theorem exists_level (k : Nat) : ∃ callee, table[idOf (levelName k)]? = some callee ∧ callee.hasValue = true := by
  match k with
  | 0 | 1 | 2 | 3 | 4 | 5 | 6 => exact ⟨_, table_binary (by decide), rfl⟩
  | 7 => exact ⟨_, table_prefix, rfl⟩
  | 8 => exact ⟨_, table_postfix, rfl⟩
  | _ + 9 => exact ⟨_, table_primary, rfl⟩

/-! ## Contexts of the rules -/

theorem get?_set_self (ctx : Context Value) (name : String) (v : Value) : (ctx.set name v).get? name = some v :=
  Bindings.get?_insert_self _ _

theorem get?_set_ne (ctx : Context Value) (v : Value) {name other : String} (h : other ≠ name) :
    (ctx.set name v).get? other = ctx.get? other :=
  Bindings.get?_insert_ne _ _ h

theorem get?_take_ne (ctx : Context Value) {name other : String} (h : other ≠ name) :
    (ctx.take name).2.get? other = ctx.get? other :=
  Bindings.get?_erase_ne _ h

/-- The rule was entered at `o` in a mode, and has read an expression so far. -/
structure Carries (ctx : Context Value) (lv : Bool) (o : Nat) (e : Expr) : Prop where
  mode : ctx.get? "ctx" = some (.mode ⟨lv⟩)
  value : ctx.value = some (.expr e)
  start : ctx.start = o

section
variable {w : World Value} {c c₁ c₂ d d' : Cursor} {rule callee : Rule Value} {ctx ctx' : Context Value} {lv : Bool}
  {e e' : Expr} {o k : Nat} {label name : String} {v : Value} {g x y : List Char}

/-- The mode is handed on to a call. -/
theorem argumentsOf_forward (hp : rule.preCall? label = some fun ctx => ["ctx"].filterMap ctx.get?)
    (hm : ctx.get? "ctx" = some v) : rule.argumentsOf (callAt label name 1) ctx = [v] := by
  simp [Rule.argumentsOf, callAt, hp, hm]

/-- A sequence over a gap. -/
theorem seq_over {a b : Pattern} {ctx₁ ctx₂ : Context Value} (hw : w.rules = table)
    (ha : Derives w blanks (.pattern rule a ctx) c (.hit ctx₁ c₁)) (hg : Gap g) (hs : c₁.Spans g c₂)
    (hsolid : Solid c₂.rest) (hb : Derives w blanks (.pattern rule b ctx₁) c₂ (.hit ctx₂ d))
    (hd : d.offset ≠ c₂.offset) : Derives w blanks (.pattern rule (.seq a b) ctx) c (.hit ctx₂ d) :=
  .seq_hit ha (skip_gap hw hg hs hsolid ctx₁) hb hd

theorem Spans.moves (h : c.Spans x d) (hx : x ≠ []) : d.offset ≠ c.offset := by
  intro hd
  exact hx (Text.eq_nil_of_byteLength (by have := h.offset; omega))

/-! ## Binary levels -/

theorem binary_operator (op : BinaryOp) (hat : operatorAt c.rest = some op) (hc : c.Spans op.symbol.toList c₁) :
    Derives w blanks (.pattern (binaryRule op.level) (.act "Op" (operators op.level)) ctx) c
      (.hit (ctx.set "op" (.binaryOp op)) c₁) := by
  have hact : setBinaryOp ctx (w.matched c c₁) = (true, ctx.set "op" (.binaryOp op)) := by
    rw [w.matched_of_spans hc, setBinaryOp, String.ofList_toList, op.ofSymbol?_symbol]
  exact .act_true setBinaryOp rfl (operator_hit hat hc) hact

/-- An operator and its right operand are folded into the value. -/
theorem binary_step (hw : w.rules = table) (hk : k < 7) (op : BinaryOp) (hop : op.level = k)
    (hat : operatorAt c.rest = some op) (hc : c.Spans op.symbol.toList c₁) (hg : Gap g) (hs : c₁.Spans g c₂)
    (hsolid : Solid c₂.rest) (h : Yields w blanks (levelName (k + 1)) [.mode ⟨lv⟩] c₂ (.expr e') d)
    (hd : d.offset ≠ c₂.offset) (hctx : Carries ctx lv o e) :
    ∃ ctx', Carries ctx' lv o (.ofOperands op e e') ∧
      Derives w blanks (.pattern (binaryRule k) (binaryBody k) ctx) c (.hit ctx' d) := by
  subst hop
  have hmode : (ctx.set "op" (.binaryOp op)).get? "ctx" = some (.mode ⟨lv⟩) := by
    rw [get?_set_ne _ _ (by decide), hctx.mode]
  obtain ⟨callee, hcallee, hvalue⟩ := exists_level (op.level + 1)
  have hright : Derives w blanks (.pattern (binaryRule op.level) (.call (callAt "Right" (levelName (op.level + 1)) 1))
      (ctx.set "op" (.binaryOp op))) c₂ (.hit (foldBinary (ctx.set "op" (.binaryOp op)) (.expr e')) d) :=
    h.call hw hcallee hvalue rfl (argumentsOf_forward rfl hmode) rfl
  refine ⟨_, ?_, seq_over hw (binary_operator op hat hc) hg hs hsolid (.expect_hit hright) hd⟩
  have hfold : foldBinary (ctx.set "op" (.binaryOp op)) (.expr e') =
      { ctx.set "op" (.binaryOp op) with value := some (.expr (.ofOperands op e e')) } := by
    have hleft : (ctx.set "op" (.binaryOp op)).value = some (.expr e) := hctx.value
    simp [foldBinary, get?_set_self, takeValueAs, Context.takeValue, hleft, Value.binaryOp?, Value.expr?,
      Context.setValue]
  rw [hfold]
  exact ⟨hmode, rfl, hctx.start⟩

theorem binary_repeats (hk : k < 7) : Repeats w (binaryRule k) (binaryBody k) where
  ending := by
    intro ctx c hc
    refine .seq_first (.act_miss (operator_miss hk fun op hop => ?_))
    rw [hc] at hop
    cases hop
  moving := by
    intro ctx ctx' c d h
    obtain ⟨ctx₁, c₁, c₂, e, ha, hs, hb, hd⟩ := Derives.seq_inv h
    obtain ⟨ctx₂, hop, -⟩ := Derives.act_inv rfl ha
    obtain ⟨-, op, -, -, hspan⟩ := operator_inv hk hop
    have hmove := Spans.moves hspan (by cases op <;> decide)
    have hfrom := hspan.offset
    obtain ⟨x, hx⟩ := hs.spans
    obtain ⟨y, hy⟩ := hb.spans
    have := hx.offset
    have := hy.offset
    rcases hd with ⟨-, rfl⟩ | ⟨-, rfl⟩ <;> omega

/-! ## Going on from what was read -/

/-- Whatever rounds of the rule's body make from `d` on of the contexts in `P`, the rule makes of the text at `c`. -/
structure Continues (w : World Value) (rule : Rule Value) (body : Pattern) (args : List Value) (c : Cursor)
    (P : Context Value → Prop) (d : Cursor) : Prop where
  yields : ∀ v d', (∀ ctx, P ctx → ∃ ctx', ctx'.value = some v ∧
      Derives w blanks (.rounds rule body false ctx) d (.hit ctx' d')) →
    Yields w blanks rule.name args c v d'
  stops : (∀ ctx, P ctx → Derives w blanks (.rounds rule body false ctx) d .stop) →
    Derives w blanks (.rule (idOf rule.name) args) c .stop

section
variable {body : Pattern} {args : List Value} {P Q : Context Value → Prop}

/-- A rule that has read its first part goes on from there. -/
theorem continues_of (hw : w.rules = table) (hr : table[idOf rule.name]? = some rule) (hl : args.length = rule.arity)
    {a : Pattern} (hdef : rule.definition = .seq a (.many body)) (hb : Repeats w rule body)
    (ha : Derives w blanks (.pattern rule a (.enter rule.attributes args c.offset)) c (.hit ctx d)) (hP : P ctx) :
    Continues w rule body args c P d where
  yields := by
    intro v d' hrounds
    obtain ⟨ctx', hv, hround⟩ := hrounds ctx hP
    refine yields_of hw hr hl ?_ hv
    rw [hdef]
    exact seq_many_hit hw hb ha hround
  stops := by
    intro hrounds
    refine .rule_stop (hw ▸ hr) hl ?_
    rw [hdef]
    exact seq_many_stop hb ha (hrounds ctx hP)

/-- One more round after a gap. -/
theorem Continues.more (hw : w.rules = table) (h : Continues w rule body args c P c₁) (hg : Gap g)
    (hs : c₁.Spans g c₂) (hsolid : Solid c₂.rest) (hne : c₂.rest ≠ [])
    (hstep : ∀ ctx, P ctx → ∃ ctx', Q ctx' ∧ Derives w blanks (.pattern rule body ctx) c₂ (.hit ctx' d)) :
    Continues w rule body args c Q d := by
  have hne₁ : c₁.rest ≠ [] := by
    rw [hs.rest]
    exact fun hnil => hne (List.append_eq_nil_iff.1 hnil).2
  constructor
  · intro v d' hrounds
    refine h.yields v d' fun ctx hctx => ?_
    obtain ⟨ctx₁, hctx₁, hbody⟩ := hstep ctx hctx
    obtain ⟨ctx₂, hv, hr⟩ := hrounds ctx₁ hctx₁
    exact ⟨ctx₂, hv, .rounds_hit hne₁ (skip_gap hw hg hs hsolid ctx) hbody hr⟩
  · intro hrounds
    refine h.stops fun ctx hctx => ?_
    obtain ⟨ctx₁, hctx₁, hbody⟩ := hstep ctx hctx
    exact .rounds_hit hne₁ (skip_gap hw hg hs hsolid ctx) hbody (hrounds ctx₁ hctx₁)

/-- No round hits any more. -/
theorem Continues.done {r : List Char} (hw : w.rules = table) (h : Continues w rule body args c P d)
    (hv : ∀ ctx, P ctx → ctx.value = some v) (hgap : afterGap d.rest = some r)
    (hmiss : ∀ ctx d₁, d₁.rest = r → Derives w blanks (.pattern rule body ctx) d₁ (.miss ctx)) :
    Yields w blanks rule.name args c v d := by
  refine h.yields _ d fun ctx hctx => ⟨ctx, hv ctx hctx, ?_⟩
  by_cases hr : d.rest = []
  · exact .rounds_end hr
  obtain ⟨d₁, hs, hd₁⟩ | ⟨-, hnone⟩ := skip_blanks hw ctx d
  · exact .rounds_miss hr hs (hmiss ctx d₁ (Option.some.inj (hd₁.symm.trans hgap)))
  · cases hnone.symm.trans hgap

end

/-- The rule goes on from the expression `e`, read from `c` to `d`. -/
abbrev Extends (w : World Value) (rule : Rule Value) (body : Pattern) (lv : Bool) (c : Cursor) (e : Expr) (d : Cursor) :
    Prop :=
  Continues w rule body [.mode ⟨lv⟩] c (fun ctx => Carries ctx lv c.offset e) d

theorem binary_first (hw : w.rules = table) (hk : k < 7)
    (h : Yields w blanks (levelName (k + 1)) [.mode ⟨lv⟩] c (.expr e) d) :
    Extends w (binaryRule k) (binaryBody k) lv c e d := by
  obtain ⟨callee, hcallee, hvalue⟩ := exists_level (k + 1)
  have hleft : Derives w blanks (.pattern (binaryRule k) (.call (callAt "Left" (levelName (k + 1)) 1))
      ⟨[("ctx", .mode ⟨lv⟩)], none, c.offset⟩) c (.hit ⟨[("ctx", .mode ⟨lv⟩)], some (.expr e), c.offset⟩ d) :=
    h.call hw hcallee hvalue rfl (argumentsOf_forward rfl rfl) rfl
  exact continues_of hw (table_binary hk) rfl (binaryRule_definition hk) (binary_repeats hk) hleft ⟨rfl, rfl, rfl⟩

theorem binary_more (hw : w.rules = table) (hk : k < 7) (op : BinaryOp) (hop : op.level = k)
    (h : Extends w (binaryRule k) (binaryBody k) lv c e c₁) {c₃ c₄ : Cursor} {g' : List Char} (hg : Gap g)
    (hs : c₁.Spans g c₂) (hsolid : Solid c₂.rest) (hat : operatorAt c₂.rest = some op)
    (hc : c₂.Spans op.symbol.toList c₃) (hg' : Gap g') (hs' : c₃.Spans g' c₄) (hsolid' : Solid c₄.rest)
    (hr : Yields w blanks (levelName (k + 1)) [.mode ⟨lv⟩] c₄ (.expr e') d) (hd : d.offset ≠ c₄.offset) :
    Extends w (binaryRule k) (binaryBody k) lv c (.ofOperands op e e') d := by
  refine h.more hw hg hs hsolid ?_ fun ctx hctx =>
    binary_step hw hk op hop hat hc hg' hs' hsolid' hr hd hctx
  intro hnil
  rw [hnil] at hat
  cases hat

theorem binary_done (hw : w.rules = table) (hk : k < 7) (h : Extends w (binaryRule k) (binaryBody k) lv c e d)
    (hd : Ends k d.rest) : Yields w blanks (levelName k) [.mode ⟨lv⟩] c (.expr e) d := by
  obtain ⟨r, hr, -, hop⟩ := hd.next
  refine h.done hw (fun _ hctx => hctx.value) hr fun ctx d₁ hd₁ => .seq_first (.act_miss (operator_miss hk fun op hat => ?_))
  rw [hd₁] at hat
  exact Nat.ne_of_lt (hop op hat)

/-! ## Prefixes -/

theorem prefix_operator (op : UnaryOp) (hc : c.Spans op.symbol.toList c₁) :
    Derives w blanks (.pattern prefixLevel (.act "Op" signs) ⟨[("ctx", v)], none, o⟩) c
      (.hit ⟨[("ctx", v), ("op", .unaryOp op)], none, o⟩ c₁) := by
  have hact : setUnaryOp ⟨[("ctx", v)], none, o⟩ (w.matched c c₁) =
      (true, ⟨[("ctx", v), ("op", .unaryOp op)], none, o⟩) := by
    rw [w.matched_of_spans hc, setUnaryOp, String.ofList_toList, op.ofSymbol?_symbol]
    rfl
  exact .act_true setUnaryOp rfl (unary_hit hc) hact

theorem prefix_sign (hw : w.rules = table) (op : UnaryOp) (hc : c.Spans op.symbol.toList c₁) (hg : Gap g)
    (hs : c₁.Spans g c₂) (hsolid : Solid c₂.rest)
    (h : Yields w blanks "Prefix" [.mode ⟨lv⟩] c₂ (.expr e) d) (hd : d.offset ≠ c₂.offset) :
    Yields w blanks "Prefix" [.mode ⟨lv⟩] c (.expr (.unary op e ⟨e.span.file, c.offset, e.span.stop⟩)) d := by
  have hoperand : Derives w blanks (.pattern prefixLevel (.call (callAt "Operand" "Prefix" 1))
      ⟨[("ctx", .mode ⟨lv⟩), ("op", .unaryOp op)], none, c.offset⟩) c₂
      (.hit ⟨[("ctx", .mode ⟨lv⟩), ("op", .unaryOp op)],
        some (.expr (.unary op e ⟨e.span.file, c.offset, e.span.stop⟩)), c.offset⟩ d) :=
    h.call hw table_prefix rfl rfl (argumentsOf_forward rfl rfl) rfl
  exact yields_of hw table_prefix rfl (.alt_first (seq_over hw (prefix_operator op hc) hg hs hsolid
    (.expect_hit hoperand) hd)) rfl

theorem prefix_none (hw : w.rules = table) (hc : ∀ ch ∈ c.rest.head?, ch ≠ '-' ∧ ch ≠ '+' ∧ ch ≠ '!' ∧ ch ≠ '~')
    (h : Yields w blanks "Postfix" [.mode ⟨lv⟩] c v d) : Yields w blanks "Prefix" [.mode ⟨lv⟩] c v d := by
  have hsuffixed : Derives w blanks (.pattern prefixLevel (.call (callAt "Postfix" "Postfix" 1))
      ⟨[("ctx", .mode ⟨lv⟩)], none, c.offset⟩) c (.hit ⟨[("ctx", .mode ⟨lv⟩)], some v, c.offset⟩ d) :=
    h.call hw table_postfix rfl rfl (argumentsOf_forward rfl rfl) rfl
  exact yields_of hw table_prefix rfl (.alt_second (.seq_first (.act_miss (unary_miss hc))) hsuffixed) rfl

/-! ## Suffixes -/

def memberPart : Pattern := .act "Member" (.seq (.char '.') (.expect (.call (callAt "Identifier" "Identifier" 0))))

def argument : Pattern := .call (callAt "Arg" "Expression" 1)

def invokePart : Pattern :=
  .act "Invoke" (.seq (.seq (.act "Open" (.char '(')) (.opt (.list argument (.char ',')))) (.expect (.char ')')))

def indexPart : Pattern :=
  .act "Indexed" (.seq (.seq (.char '[') (.expect (.call (callAt "Index" "Expression" 1)))) (.expect (.char ']')))

def suffixes : Pattern := .alt (.alt memberPart invokePart) indexPart

theorem postfixLevel_definition :
    postfixLevel.definition = .seq (.call (callAt "Primary" "Primary" 1)) (.many suffixes) :=
  rfl

theorem suffix_miss (h : ∀ ch ∈ c.rest.head?, ch ≠ '.' ∧ ch ≠ '(' ∧ ch ≠ '[') :
    Derives w blanks (.pattern postfixLevel suffixes ctx) c (.miss ctx) := by
  have hno : ∀ ch : Char, (ch = '.' ∨ ch = '(' ∨ ch = '[') → c.rest.head? ≠ some ch := by
    rintro ch hch hhead
    have := h ch hhead
    rcases hch with rfl | rfl | rfl <;> simp at this
  exact .alt_second (.alt_second (.act_miss (.seq_first (.char_of_head (hno '.' (by simp)))))
    (.act_miss (.seq_first (.seq_first (.act_miss (.char_of_head (hno '(' (by simp))))))))
    (.act_miss (.seq_first (.seq_first (.char_of_head (hno '[' (by simp))))))

/-- The action of a suffix puts a node around the value. -/
theorem wrapValue_carries (hctx : Carries ctx lv o e) (wrap : Expr → Span → Expr) (m : Matched) :
    ∃ ctx', Carries ctx' lv o (wrap e ⟨m.span.file, o, m.span.stop⟩) ∧ wrapValue wrap ctx m = (true, ctx') := by
  refine ⟨{ ctx with value := some (.expr (wrap e ⟨m.span.file, o, m.span.stop⟩)) },
    ⟨hctx.mode, rfl, hctx.start⟩, ?_⟩
  simp [wrapValue, takeValueAs, Context.takeValue, hctx.value, Value.expr?, Context.setValue, hctx.start]

theorem Carries.set (hctx : Carries ctx lv o e) (name : String) (v : Value) (hn : "ctx" ≠ name) :
    Carries (ctx.set name v) lv o e :=
  ⟨by rw [get?_set_ne _ _ hn, hctx.mode], hctx.value, hctx.start⟩

theorem Carries.take (hctx : Carries ctx lv o e) (name : String) (hn : "ctx" ≠ name) :
    Carries (ctx.take name).2 lv o e :=
  ⟨by rw [get?_take_ne _ hn, hctx.mode], hctx.value, hctx.start⟩

theorem member_step (hw : w.rules = table) (hc : c.Spans ['.'] c₁) (hg : Gap g) (hs : c₁.Spans g c₂)
    (hy : isName y = true) (hname : c₂.Spans y d) (hd : WordEnd d.rest) (hctx : Carries ctx lv o e) :
    ∃ ctx', Carries ctx' lv o (.member e ⟨String.ofList y, w.span c₂ d⟩ ⟨w.fileIndex, o, d.offset⟩) ∧
      Derives w blanks (.pattern postfixLevel suffixes ctx) c (.hit ctx' d) := by
  obtain ⟨ch, z, rfl, hch⟩ := head_of_isName hy
  have hsolid : Solid c₂.rest := by
    have hopen : isOpening ch = true := by simp [isOpening, hch]
    rw [hname.rest]
    exact solid_cons (isOpening_apart hopen).1 (isOpening_apart hopen).2.1 _
  have hid : Derives w blanks (.pattern postfixLevel (.call (callAt "Identifier" "Identifier" 0)) ctx) c₂
      (.hit (ctx.set "Identifier" (.identifier ⟨String.ofList (ch :: z), w.span c₂ d⟩)) d) :=
    (name_hit hw hy hname hd).call hw table_name rfl rfl rfl rfl
  have hset := (hctx.set "Identifier" (.identifier ⟨String.ofList (ch :: z), w.span c₂ d⟩) (by decide)).take
    "Identifier" (by decide)
  obtain ⟨ctx', hctx', hwrap⟩ := wrapValue_carries hset
    (fun target span => .member target ⟨String.ofList (ch :: z), w.span c₂ d⟩ span) (w.matched c d)
  refine ⟨ctx', hctx', .alt_first (.alt_first (.act_true Expressions.member rfl (seq_over hw (.char_of_spans hc) hg hs
    hsolid (.expect_hit hid) (Spans.moves hname (by simp))) ?_))⟩
  rw [← hwrap, Expressions.member, takeAs]
  simp only [Context.take, get?_set_self, Option.bind_some, Value.identifier?]

theorem index_step (hw : w.rules = table) {c₃ c₄ : Cursor} {g' : List Char} {i : Expr} (hc : c.Spans ['['] c₁)
    (hg : Gap g) (hs : c₁.Spans g c₂) (hsolid : Solid c₂.rest)
    (hi : Yields w blanks "Expression" [.mode {}] c₂ (.expr i) c₃) (hmove : c₃.offset ≠ c₂.offset) (hg' : Gap g')
    (hs' : c₃.Spans g' c₄) (hclose : c₄.Spans [']'] d) (hctx : Carries ctx lv o e) :
    ∃ ctx', Carries ctx' lv o (.index e i ⟨w.fileIndex, o, d.offset⟩) ∧
      Derives w blanks (.pattern postfixLevel suffixes ctx) c (.hit ctx' d) := by
  have hhead : c.rest.head? = some '[' := by rw [hc.rest]; rfl
  have hsolid' : Solid c₄.rest := by rw [hclose.rest]; exact solid_cons (by decide) (by decide) _
  have hindex : Derives w blanks (.pattern postfixLevel (.call (callAt "Index" "Expression" 1)) ctx) c₂
      (.hit (ctx.set "Index" (.expr i)) c₃) := hi.call hw table_expression rfl rfl rfl rfl
  obtain ⟨ctx', hctx', hwrap⟩ := wrapValue_carries
    ((hctx.set "Index" (.expr i) (by decide)).take "Index" (by decide))
    (fun target span => .index target i span) (w.matched c d)
  refine ⟨ctx', hctx', .alt_second (.alt_second (.act_miss (.seq_first (.char_of_head ?_)))
    (.act_miss (.seq_first (.seq_first (.act_miss (.char_of_head ?_))))))
    (.act_true indexed rfl (seq_over hw (seq_over hw (.char_of_spans hc) hg hs hsolid (.expect_hit hindex) hmove) hg'
      hs' hsolid' (.expect_hit (.char_of_spans hclose)) (Spans.moves hclose (by simp))) ?_)⟩
  · rw [hhead]; decide
  · rw [hhead]; decide
  · rw [← hwrap, indexed, takeAs]
    simp only [Context.take, get?_set_self, Option.bind_some, Value.expr?]

/-! ## Arguments -/

/-- The arguments that were read so far are kept beside the value. -/
structure Collects (ctx : Context Value) (lv : Bool) (o : Nat) (e : Expr) (es : List Expr) : Prop
    extends Carries ctx lv o e where
  arguments : ctx.get? "args" = some (.list (es.map .expr))

variable {es : List Expr} {a : Expr}

theorem argument_step (hw : w.rules = table) (h : Yields w blanks "Expression" [.mode {}] c (.expr a) d)
    (hctx : Collects ctx lv o e es) :
    ∃ ctx', Collects ctx' lv o e (es ++ [a]) ∧ Derives w blanks (.pattern postfixLevel argument ctx) c (.hit ctx' d) := by
  have hcall : Derives w blanks (.pattern postfixLevel argument ctx) c (.hit (pushItem "args" ctx (.expr a)) d) :=
    h.call hw table_expression rfl rfl rfl rfl
  refine ⟨_, ?_, hcall⟩
  have hpush : pushItem "args" ctx (.expr a) = ctx.set "args" (.list ((es ++ [a]).map .expr)) := by
    simp [pushItem, hctx.arguments]
  rw [hpush]
  exact ⟨hctx.toCarries.set "args" _ (by decide), get?_set_self _ _ _⟩

/-- Every argument ends before the next comma or the closing parenthesis. -/
theorem ends_arguments {as : List Argument} {t : List Char} (hp : Argument.Placed o as) (hg : Gap g) :
    Ends k (Argument.written as ++ (g ++ ')' :: t)) := by
  cases as with
  | nil => exact ends_closing hg (.inl rfl)
  | cons b as =>
    have happend : Argument.written (b :: as) ++ (g ++ ')' :: t) =
        b.before ++ ',' :: (b.after ++ b.text ++ Argument.written as ++ (g ++ ')' :: t)) := by
      simp [Argument.written, Argument.comma]
    rw [happend]
    exact ends_closing hp.1 (.inr (.inr (.inl rfl)))

/-- The arguments after the first one. -/
theorem arguments_rounds (hw : w.rules = table) {as : List Argument} (hc : c.Spans (Argument.written as) d)
    (hp : Argument.Placed c.offset as)
    (has : ∀ b ∈ as, ∀ c d, c.Spans b.text d → c.offset = b.start → Ends 0 d.rest →
      Yields w blanks "Expression" [.mode {}] c (.expr b.value) d)
    (hopen : ∀ b ∈ as, ∀ t, Solid (b.text ++ t)) {t : List Char} (hg : Gap g) (hs : d.Spans g d')
    (hclose : d'.rest = ')' :: t)
    (hctx : Collects ctx lv o e es) :
    ∃ ctx', Collects ctx' lv o e (es ++ as.map (·.value)) ∧
      Derives w blanks (.items postfixLevel argument (.char ',') ctx) c (.hit ctx' d) := by
  induction as generalizing c ctx es with
  | nil =>
    obtain rfl := hc.unique .rfl
    refine ⟨ctx, by simpa using hctx, ?_⟩
    have hsolid : Solid d'.rest := by rw [hclose]; exact solid_cons (by decide) (by decide) _
    exact .items_end (skip_gap hw hg hs hsolid ctx) (.char_of_head (by rw [hclose]; exact nofun))
  | cons b as ih =>
    obtain ⟨hbefore, hafter, hstart, hplaced⟩ := hp
    have hc : c.Spans (b.before ++ ([','] ++ (b.after ++ (b.text ++ Argument.written as)))) d := by
      simpa [Argument.written, Argument.comma] using hc
    obtain ⟨c₁, h₁, hc⟩ := Cursor.spans_append.1 hc
    obtain ⟨c₂, h₂, hc⟩ := Cursor.spans_append.1 hc
    obtain ⟨c₃, h₃, hc⟩ := Cursor.spans_append.1 hc
    obtain ⟨c₄, h₄, h₅⟩ := Cursor.spans_append.1 hc
    have hoff : c₃.offset = b.start := by
      rw [hstart, ((h₁.trans h₂).trans h₃).offset]
      rfl
    have hends : Ends 0 c₄.rest := by
      rw [h₅.rest, hs.rest, hclose]
      exact ends_arguments hplaced hg
    obtain ⟨ctx₁, hctx₁, hitem⟩ := argument_step hw (has b List.mem_cons_self c₃ c₄ h₄ hoff hends) hctx
    obtain ⟨ctx₂, hctx₂, hitems⟩ := ih h₅ (by rw [h₄.offset, hoff]; exact hplaced)
      (fun b' hb' => has b' (List.mem_cons_of_mem _ hb')) (fun b' hb' => hopen b' (List.mem_cons_of_mem _ hb')) hctx₁
    refine ⟨ctx₂, by simpa using hctx₂, .items_hit (skip_gap hw hbefore h₁ ?_ ctx) (.char_of_spans h₂)
      (skip_gap hw hafter h₃ ?_ ctx) hitem hitems⟩
    · rw [h₂.rest]; exact solid_cons (by decide) (by decide) _
    · rw [h₄.rest]; exact hopen b List.mem_cons_self _

/-- A list kept under a name is taken as it was put there. -/
theorem takeItems_of_get? {α : Type} {content? : Value → Option α} {into : α → Value} {items : List α}
    (hinto : ∀ a, content? (into a) = some a) (h : ctx.get? name = some (.list (items.map into))) :
    takeItems content? name ctx = (some items, (ctx.take name).2) := by
  have hall : ∀ items : List α, (items.map into).mapM content? = some items := by
    intro items
    induction items with
    | nil => rfl
    | cons a items ih => rw [List.map_cons, List.mapM_cons, hinto, ih]; rfl
  simp only [takeItems, Context.take, h, Value.list?, Option.bind_some, hall]

theorem invoke_finish (hw : w.rules = table) {ctx₁ : Context Value} {r : Cursor}
    (hhead : c.rest.head? = some '(')
    (hopen : Derives w blanks (.pattern postfixLevel (.seq (.act "Open" (.char '(')) (.opt (.list argument (.char ','))))
      ctx) c (.hit ctx₁ r)) (hctx₁ : Collects ctx₁ lv o e es) (hg : Gap g) (hs : r.Spans g c₂)
    (hclose : c₂.Spans [')'] d) :
    ∃ ctx', Carries ctx' lv o (.invoke e es ⟨w.fileIndex, o, d.offset⟩) ∧
      Derives w blanks (.pattern postfixLevel suffixes ctx) c (.hit ctx' d) := by
  have hsolid : Solid c₂.rest := by rw [hclose.rest]; exact solid_cons (by decide) (by decide) _
  obtain ⟨ctx', hctx', hwrap⟩ := wrapValue_carries (hctx₁.toCarries.take "args" (by decide))
    (fun target span => .invoke target es span) (w.matched c d)
  have htake : takeItems Value.expr? "args" ctx₁ = (some es, (ctx₁.take "args").2) :=
    takeItems_of_get? (fun _ => rfl) hctx₁.arguments
  refine ⟨ctx', hctx', .alt_first (.alt_second (.act_miss (.seq_first (.char_of_head (by rw [hhead]; decide))))
    (.act_true invoke rfl (seq_over hw hopen hg hs hsolid (.expect_hit (.char_of_spans hclose))
      (Spans.moves hclose (by simp))) ?_))⟩
  rw [← hwrap, invoke, htake]

theorem Collects.opened (hctx : Carries ctx lv o e) : Collects (ctx.set "args" (.list [])) lv o e [] :=
  ⟨hctx.set "args" _ (by decide), get?_set_self _ _ _⟩

theorem call_step (hw : w.rules = table) (hc : c.Spans ['('] c₁) (hg : Gap g) (hs : c₁.Spans g c₂)
    (hclose : c₂.Spans [')'] d) (hmiss : Misses w blanks "Expression" [.mode {}] c₂) (hctx : Carries ctx lv o e) :
    ∃ ctx', Carries ctx' lv o (.invoke e [] ⟨w.fileIndex, o, d.offset⟩) ∧
      Derives w blanks (.pattern postfixLevel suffixes ctx) c (.hit ctx' d) := by
  have hsolid : Solid c₂.rest := by rw [hclose.rest]; exact solid_cons (by decide) (by decide) _
  refine invoke_finish hw (by rw [hc.rest]; rfl) (.seq_empty (.act_pass (.char_of_spans hc) rfl rfl)
    (skip_gap hw hg hs hsolid _) (.opt_miss (.list_miss (hmiss.call rfl rfl rfl))) rfl)
    (Collects.opened hctx) hg hs hclose

theorem invoke_step (hw : w.rules = table) {c₃ c₄ c₅ : Cursor} {g' : List Char} {as : List Argument}
    (hc : c.Spans ['('] c₁) (hg : Gap g) (hs : c₁.Spans g c₂) (hsolid : Solid c₂.rest)
    (ha : Yields w blanks "Expression" [.mode {}] c₂ (.expr a) c₃) (hmove : c₃.offset ≠ c₂.offset)
    (hmore : c₃.Spans (Argument.written as) c₄) (hp : Argument.Placed c₃.offset as)
    (has : ∀ b ∈ as, ∀ c d, c.Spans b.text d → c.offset = b.start → Ends 0 d.rest →
      Yields w blanks "Expression" [.mode {}] c (.expr b.value) d)
    (hopen : ∀ b ∈ as, ∀ t, Solid (b.text ++ t)) (hg' : Gap g') (hs' : c₄.Spans g' c₅) (hclose : c₅.Spans [')'] d)
    (hctx : Carries ctx lv o e) :
    ∃ ctx', Carries ctx' lv o (.invoke e (a :: as.map (·.value)) ⟨w.fileIndex, o, d.offset⟩) ∧
      Derives w blanks (.pattern postfixLevel suffixes ctx) c (.hit ctx' d) := by
  obtain ⟨ctx₁, hctx₁, hfirst⟩ := argument_step hw ha (Collects.opened hctx)
  obtain ⟨ctx₂, hctx₂, hitems⟩ := arguments_rounds hw hmore hp has hopen hg' hs' hclose.rest hctx₁
  refine invoke_finish hw (by rw [hc.rest]; rfl) (seq_over hw (.act_pass (.char_of_spans hc) rfl rfl) hg hs hsolid
    (.opt_hit (.list_hit hfirst hitems)) ?_) hctx₂ hg' hs' hclose
  obtain ⟨_, -, hd⟩ := ha
  obtain ⟨x, hx⟩ := hd.spans
  have := hx.offset
  have := hmore.offset
  omega

theorem suffixes_repeats : Repeats w postfixLevel suffixes where
  ending := by
    intro ctx c hc
    exact suffix_miss (by rw [hc]; exact nofun)
  moving := by
    intro ctx ctx' c d h
    -- Every suffix begins with a char of its own.
    have hmoves : ∀ {rule : Rule Value} {a b : Pattern} {ctx ctx' : Context Value} {c d : Cursor},
        (∀ {ctx ctx' : Context Value} {d : Cursor}, Derives w blanks (.pattern rule a ctx) c (.hit ctx' d) →
          c.offset < d.offset) →
        Derives w blanks (.pattern rule (.seq a b) ctx) c (.hit ctx' d) → c.offset < d.offset := by
      intro rule a b ctx ctx' c d ha h
      obtain ⟨_, c₁, c₂, e, h₁, hs, hb, hd⟩ := Derives.seq_inv h
      have := ha h₁
      obtain ⟨x, hx⟩ := hs.spans
      obtain ⟨y, hy⟩ := hb.spans
      have := hx.offset
      have := hy.offset
      rcases hd with ⟨-, rfl⟩ | ⟨-, rfl⟩ <;> omega
    have hchar : ∀ {rule : Rule Value} {ch : Char} {ctx ctx' : Context Value} {c d : Cursor},
        Derives w blanks (.pattern rule (.char ch) ctx) c (.hit ctx' d) → c.offset < d.offset := by
      intro rule ch ctx ctx' c d h
      have hspan := (Derives.char_inv h).2
      have := Spans.moves hspan (by simp)
      have := hspan.offset
      omega
    refine Nat.ne_of_gt ?_
    obtain h | ⟨_, -, h⟩ := Derives.alt_inv h
    · obtain h | ⟨_, -, h⟩ := Derives.alt_inv h
      · exact hmoves hchar (Derives.act_inv rfl h).choose_spec.1
      · refine hmoves (hmoves fun hopen => ?_) (Derives.act_inv rfl h).choose_spec.1
        exact hchar (Derives.act_inv rfl hopen).choose_spec.1
    · exact hmoves (hmoves hchar) (Derives.act_inv rfl h).choose_spec.1

theorem postfix_first (hw : w.rules = table) (h : Yields w blanks "Primary" [.mode ⟨lv⟩] c (.expr e) d) :
    Extends w postfixLevel suffixes lv c e d := by
  have hprimary : Derives w blanks (.pattern postfixLevel (.call (callAt "Primary" "Primary" 1))
      ⟨[("ctx", .mode ⟨lv⟩)], none, c.offset⟩) c (.hit ⟨[("ctx", .mode ⟨lv⟩)], some (.expr e), c.offset⟩ d) :=
    h.call hw table_primary rfl rfl (argumentsOf_forward rfl rfl) rfl
  exact continues_of hw table_postfix rfl postfixLevel_definition suffixes_repeats hprimary ⟨rfl, rfl, rfl⟩

theorem postfix_done (hw : w.rules = table) (h : Extends w postfixLevel suffixes lv c e d) (hd : Ends 8 d.rest) :
    Yields w blanks "Postfix" [.mode ⟨lv⟩] c (.expr e) d := by
  obtain ⟨r, hr, hsuffix, -⟩ := hd.next
  exact h.done hw (fun _ hctx => hctx.value) hr fun ctx d₁ hd₁ => suffix_miss (by rw [hd₁]; exact hsuffix (Nat.le_refl 8))

/-! ## What stands alone -/

def parenPart : Pattern := .seq (.seq (.char '(') (.call (callAt "Paren" "Expression" 1))) (.expect (.char ')'))

def literalPart : Pattern := .act "Literal" (.call (callAt "Literal" "Literal" 0))

theorem paren_miss (h : c.rest.head? ≠ some '(') :
    Derives w blanks (.pattern primaryLevel parenPart ctx) c (.miss ctx) :=
  .seq_first (.seq_first (.char_of_head h))

theorem primary_paren (hw : w.rules = table) {c₃ c₄ : Cursor} {g' : List Char} (hc : c.Spans ['('] c₁) (hg : Gap g)
    (hs : c₁.Spans g c₂) (hsolid : Solid c₂.rest) (h : Yields w blanks "Expression" [.mode ⟨lv⟩] c₂ v c₃)
    (hmove : c₃.offset ≠ c₂.offset) (hg' : Gap g') (hs' : c₃.Spans g' c₄) (hclose : c₄.Spans [')'] d) :
    Yields w blanks "Primary" [.mode ⟨lv⟩] c v d := by
  have hinner : Derives w blanks (.pattern primaryLevel (.call (callAt "Paren" "Expression" 1))
      ⟨[("ctx", .mode ⟨lv⟩)], none, c.offset⟩) c₂ (.hit ⟨[("ctx", .mode ⟨lv⟩)], some v, c.offset⟩ c₃) :=
    h.call hw table_expression rfl rfl (argumentsOf_forward rfl rfl) rfl
  have hsolid' : Solid c₄.rest := by rw [hclose.rest]; exact solid_cons (by decide) (by decide) _
  exact yields_of hw table_primary rfl (.alt_first (.alt_first (.alt_first (seq_over hw
    (seq_over hw (.char_of_spans hc) hg hs hsolid hinner hmove) hg' hs' hsolid' (.expect_hit (.char_of_spans hclose))
    (Spans.moves hclose (by simp)))))) rfl

theorem primary_literal (hw : w.rules = table) {l : Literal} (hx : LiteralText x l) (hc : c.Spans x d)
    (hd : TokenEnd d.rest) : Yields w blanks "Primary" [.mode {}] c (.expr (.literal l (w.span c d))) d := by
  have hparen : c.rest.head? ≠ some '(' := by
    obtain ⟨ch, y, rfl, hch⟩ := head_of_literalText hx
    rw [hc.rest]
    rintro ⟨⟩
    revert hch
    decide
  have hliteral : Derives w blanks (.pattern primaryLevel (.call (callAt "Literal" "Literal" 0))
      ⟨[("ctx", .mode {})], none, c.offset⟩) c
      (.hit ⟨[("ctx", .mode {}), ("Literal", .literal l)], none, c.offset⟩ d) :=
    (literal_hit hw hx hc hd).call hw table_literal rfl rfl rfl rfl
  exact yields_of hw table_primary rfl (.alt_first (.alt_first (.alt_second (paren_miss hparen)
    (.act_true Expressions.literal rfl hliteral rfl)))) rfl

/-- Where a word stands that is no literal, none is read. -/
theorem literalPart_miss_word (hw : w.rules = table) (hx : isWord x = true) (hc : c.Spans x d) (hd : WordEnd d.rest)
    (hno : String.ofList x ∉ ["true", "false", "null"]) :
    Derives w blanks (.pattern primaryLevel literalPart ctx) c (.miss ctx) := by
  refine .act_miss ((literal_miss hw (notAt_of_word (by decide) hx hc hd hno) ?_).call rfl rfl rfl)
  intro ch hch
  cases x with
  | nil => cases hx
  | cons ch' x =>
    rw [hc.rest] at hch
    cases hch
    have hstart := (isWord_cons.1 hx).1
    refine ⟨?_, ?_, ?_⟩
    · rw [Bool.eq_false_iff]
      intro hdigit
      rw [isWordStart_of_digit hdigit] at hstart
      cases hstart
    · rintro rfl; revert hstart; decide
    · rintro rfl; revert hstart; decide

theorem word_not_paren (hx : isWord x = true) (hc : c.Spans x d) : c.rest.head? ≠ some '(' := by
  cases x with
  | nil => cases hx
  | cons ch x =>
    rw [hc.rest]
    rintro ⟨⟩
    have := (isWord_cons.1 hx).1
    revert this
    decide

theorem primary_this (hw : w.rules = table) (hc : c.Spans "this".toList d) (hd : WordEnd d.rest) :
    Yields w blanks "Primary" [.mode ⟨lv⟩] c (.expr (.this (w.span c d))) d :=
  yields_of hw table_primary rfl (.alt_first (.alt_second (.alt_second (paren_miss (word_not_paren (by decide) hc))
    (literalPart_miss_word hw (by decide) hc hd (by decide))) (.act_pass (keyword_hit hc hd) rfl rfl))) rfl

theorem primary_name (hw : w.rules = table) (hx : isName x = true) (hc : c.Spans x d) (hd : WordEnd d.rest) :
    Yields w blanks "Primary" [.mode ⟨lv⟩] c (.expr (.name ⟨String.ofList x, w.span c d⟩ (w.span c d))) d := by
  obtain ⟨hword, hkey⟩ := isName_iff.1 hx
  have hno : ∀ word ∈ keywords, String.ofList x ≠ word := fun word hmem heq => hkey (heq ▸ hmem)
  have hid : Derives w blanks (.pattern primaryLevel (.call (callAt "Identifier" "Identifier" 0))
      ⟨[("ctx", .mode ⟨lv⟩)], none, c.offset⟩) c
      (.hit ⟨[("ctx", .mode ⟨lv⟩), ("Identifier", .identifier ⟨String.ofList x, w.span c d⟩)], none, c.offset⟩ d) :=
    (name_hit hw hx hc hd).call hw table_name rfl rfl rfl rfl
  have hthis : x ≠ "this".toList := by
    rintro rfl
    exact hno "this" (by decide) (String.ofList_toList)
  have hliteral : String.ofList x ∉ ["true", "false", "null"] := by
    intro hmem
    simp only [List.mem_cons, List.not_mem_nil, or_false] at hmem
    rcases hmem with h | h | h <;> exact hno _ (by decide) h
  exact yields_of hw table_primary rfl (.alt_second (.alt_second (.alt_second
    (paren_miss (word_not_paren hword hc)) (literalPart_miss_word hw hword hc hd hliteral))
    (.act_miss (keyword_miss_word (by decide) hword hc hd hthis)))
    (.act_true Expressions.name rfl hid rfl)) rfl

/-! ## Expressions -/

theorem expression_yields (hw : w.rules = table) (h : Yields w blanks (levelName 0) [.mode ⟨lv⟩] c v d) :
    Yields w blanks "Expression" [.mode ⟨lv⟩] c v d := by
  have hcall : Derives w blanks (.pattern expressionLevel (.call (callAt "Disjunction" "Disjunction" 1))
      ⟨[("ctx", .mode ⟨lv⟩)], none, c.offset⟩) c (.hit ⟨[("ctx", .mode ⟨lv⟩)], some v, c.offset⟩ d) :=
    h.call hw (table_binary (k := 0) (by decide)) rfl rfl (argumentsOf_forward rfl rfl) rfl
  exact yields_of hw table_expression rfl hcall rfl

/-! ## Where no expression begins -/

theorem level_miss (hw : w.rules = table) (h : Misses w blanks "Primary" [.mode ⟨lv⟩] c)
    (hc : ∀ ch ∈ c.rest.head?, ch ≠ '-' ∧ ch ≠ '+' ∧ ch ≠ '!' ∧ ch ≠ '~') (k : Nat) :
    Misses w blanks (levelName k) [.mode ⟨lv⟩] c := by
  have hsuffixed : Misses w blanks "Postfix" [.mode ⟨lv⟩] c :=
    misses_of hw table_postfix rfl (.seq_first (h.call rfl (argumentsOf_forward rfl rfl) rfl))
  have hprefix : Misses w blanks "Prefix" [.mode ⟨lv⟩] c :=
    misses_of hw table_prefix rfl (.alt_second (.seq_first (.act_miss (unary_miss hc)))
      (hsuffixed.call rfl (argumentsOf_forward rfl rfl) rfl))
  -- Each binary level misses with the next one.
  have hbinary : ∀ j ≤ 7, Misses w blanks (levelName (7 - j)) [.mode ⟨lv⟩] c := by
    intro j hj
    induction j with
    | zero => exact hprefix
    | succ j ih =>
      have hk : 7 - (j + 1) < 7 := by omega
      have hnext : 7 - (j + 1) + 1 = 7 - j := by omega
      obtain ⟨ctx, hctx⟩ : ∃ ctx : Context Value, ctx = ⟨[("ctx", .mode ⟨lv⟩)], none, c.offset⟩ := ⟨_, rfl⟩
      have hmiss : Derives w blanks (.pattern (binaryRule (7 - (j + 1))) (binaryRule (7 - (j + 1))).definition ctx) c
          (.miss ctx) := by
        rw [binaryRule_definition hk, hnext, hctx]
        exact .seq_first ((ih (by omega)).call rfl (argumentsOf_forward rfl rfl) rfl)
      subst hctx
      exact misses_of hw (table_binary hk) rfl hmiss
  match k with
  | 0 => exact hbinary 7 (by decide)
  | 1 => exact hbinary 6 (by decide)
  | 2 => exact hbinary 5 (by decide)
  | 3 => exact hbinary 4 (by decide)
  | 4 => exact hbinary 3 (by decide)
  | 5 => exact hbinary 2 (by decide)
  | 6 => exact hbinary 1 (by decide)
  | 7 => exact hprefix
  | 8 => exact hsuffixed
  | _ + 9 => exact h

theorem expression_miss (hw : w.rules = table) (h : Misses w blanks (levelName 0) [.mode ⟨lv⟩] c) :
    Misses w blanks "Expression" [.mode ⟨lv⟩] c :=
  misses_of hw table_expression rfl (h.call rfl (argumentsOf_forward rfl rfl) rfl)

/-- Before a sign, or a char no expression begins with, nothing stands alone. -/
theorem primary_miss (hw : w.rules = table)
    (h : ∀ ch ∈ c.rest.head?, isOpening ch = true → ch = '-' ∨ ch = '+' ∨ ch = '!' ∨ ch = '~') :
    Misses w blanks "Primary" [.mode ⟨lv⟩] c := by
  have hno : ∀ ch ∈ c.rest.head?, Text.isWordStart ch = false ∧ ch.isDigit = false ∧ ch ≠ '(' ∧ ch ≠ '\'' ∧ ch ≠ '"' := by
    intro ch hch
    by_cases hopen : isOpening ch = true
    · rcases h ch hch hopen with rfl | rfl | rfl | rfl <;> decide
    · rw [Bool.not_eq_true] at hopen
      refine ⟨?_, ?_, ?_, ?_, ?_⟩
      · simp only [isOpening, Bool.or_eq_false_iff] at hopen
        exact hopen.1.1
      · simp only [isOpening, Bool.or_eq_false_iff] at hopen
        exact hopen.1.2
      all_goals rintro rfl; exact Bool.noConfusion hopen
  have hnoWord : NoWord c.rest := fun ch hch => (hno ch hch).1
  have hliteral : Misses w blanks "Literal" [] c :=
    literal_miss hw (notAt_of_noWord (by decide) hnoWord) fun ch hch => ⟨(hno ch hch).2.1, (hno ch hch).2.2.2⟩
  have hname : Misses w blanks "Identifier" [] c := name_miss_noWord hw hnoWord
  exact misses_of hw table_primary rfl (.alt_second (.alt_second (.alt_second
    (paren_miss fun hhead => (hno '(' hhead).2.2.1 rfl)
    (.act_miss (hliteral.call rfl rfl rfl))) (.act_miss (keyword_miss_noWord (by decide) hnoWord)))
    (.act_miss (hname.call rfl rfl rfl)))

theorem expression_miss_head (hw : w.rules = table) (h : ∀ ch ∈ c.rest.head?, isOpening ch = false) :
    Misses w blanks "Expression" [.mode ⟨lv⟩] c := by
  refine expression_miss hw (level_miss hw (primary_miss hw fun ch hch hopen => ?_) (fun ch hch => ?_) 0)
  · rw [h ch hch] at hopen
    cases hopen
  · refine ⟨?_, ?_, ?_, ?_⟩ <;> rintro rfl <;> exact Bool.noConfusion (h _ hch)

end

end PegFront.Cminor
