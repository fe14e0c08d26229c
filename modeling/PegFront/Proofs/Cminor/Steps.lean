import PegFront.Proofs.Cminor.Attempts

/-!
# Rules in steps

The rules for statements and functions are sequences of tokens and of parts read by other rules, with gaps in
between. `Steps` says that a piece of such a rule takes up some text, and is put together as the rules are. Parts that
stand one after the other (`Row`) are gathered under a key of the context.
-/

namespace PegFront.Cminor

section
variable {w : World Value} {rule callee : Rule Value} {a b p : Pattern} {ctx ctx₁ ctx₂ : Context Value}
  {c c₁ c₂ c₃ c₄ c₅ d : Cursor} {ch : Char} {label name body : String} {args : List Value} {v : Value}
  {e : Expr} {s : Statement}

/-! ## Steps of a rule -/

/-- The rule with a name yields a value for some text. -/
structure Part (w : World Value) (name : String) (args : List Value) (c : Cursor) (v : Value) (d : Cursor) : Prop where
  yields : Yields w blanks name args c v d
  moves : d.offset ≠ c.offset

/-- A piece of a rule takes up some text. -/
structure Steps (w : World Value) (rule : Rule Value) (p : Pattern) (ctx : Context Value) (c : Cursor)
    (ctx' : Context Value) (d : Cursor) : Prop where
  derives : Derives w blanks (.pattern rule p ctx) c (.hit ctx' d)
  moves : d.offset ≠ c.offset

namespace Steps

theorem char (hc : c.Spans [ch] d) : Steps w rule (.char ch) ctx c ctx d :=
  ⟨.char_of_spans hc, Spans.moves hc (by simp)⟩

theorem keyword {word : String} (hword : isWord word.toList = true) (hc : c.Spans word.toList d)
    (hd : WordEnd d.rest) : Steps w rule (.keyword word) ctx c ctx d := by
  refine ⟨keyword_hit hc hd, Spans.moves hc ?_⟩
  rintro hnil
  rw [hnil] at hword
  cases hword

theorem expect (h : Steps w rule p ctx c ctx₁ d) : Steps w rule (.expect p) ctx c ctx₁ d :=
  ⟨.expect_hit h.derives, h.moves⟩

theorem opt (h : Steps w rule p ctx c ctx₁ d) : Steps w rule (.opt p) ctx c ctx₁ d :=
  ⟨.opt_hit h.derives, h.moves⟩

theorem call {k : Call} (hw : w.rules = table) (hc : table[idOf name]? = some callee) (hv : callee.hasValue = true)
    (h : Part w name args c v d) (ht : k.target = some (idOf name)) (ha : rule.argumentsOf k ctx = args)
    (hl : args.length = k.arity) : Steps w rule (.call k) ctx c (rule.takeUp k.label ctx v) d :=
  ⟨h.yields.call hw hc hv ht ha hl, h.moves⟩

theorem next (hw : w.rules = table) (ha : Steps w rule a ctx c ctx₁ c₁) (ho : Over c₁ c₂)
    (hb : Steps w rule b ctx₁ c₂ ctx₂ d) : Steps w rule (.seq a b) ctx c ctx₂ d := by
  refine ⟨seq_next hw ha.derives ho hb.derives hb.moves, ?_⟩
  obtain ⟨x, hx⟩ := ha.derives.spans
  obtain ⟨g, -, hg, -⟩ := ho
  obtain ⟨y, hy⟩ := hb.derives.spans
  have := ha.moves
  have := hx.offset
  have := hg.offset
  have := hy.offset
  omega

/-- What may come next does not. -/
theorem without (hw : w.rules = table) (ha : Steps w rule a ctx c ctx₁ c₁) (ho : Over c₁ c₂)
    (hb : Derives w blanks (.pattern rule b ctx₁) c₂ (.miss ctx₂)) :
    Steps w rule (.seq a (.opt b)) ctx c ctx₂ c₁ :=
  ⟨.seq_empty ha.derives (ho.skips hw ctx₁) (.opt_miss hb) rfl, ha.moves⟩

theorem part {act : String} (f : Context Value → Matched → Bool × Context Value) (hw : w.rules = table)
    (hr : table[idOf name]? = some rule) (hdef : rule.definition = .act act p) (ha : rule.attributes = [])
    (hf : rule.action? act = some (Derives.checking f)) (h : Steps w rule p ⟨[], none, c.offset⟩ c ctx d)
    (hact : (f ctx (w.matched c d)).1 = true) (hv : (f ctx (w.matched c d)).2.value = some v) : Part w name [] c v d := by
  refine ⟨yields_of hw hr (by simp [Rule.arity, ha]) ?_ hv, h.moves⟩
  rw [hdef, ha]
  exact .act_true f hf h.derives (Prod.ext hact rfl)

end Steps

/-- A rule that may be called is, or misses. -/
def Maybe (w : World Value) (name : String) (args : List Value) (c : Cursor) (d : Cursor) : Option Value → Prop
  | none => d = c ∧ ∃ c₁, Over c c₁ ∧ Misses w blanks name args c₁
  | some v => ∃ c₁, Over c c₁ ∧ Part w name args c₁ v d

theorem Steps.maybe {k : Call} {v : Option Value} (hw : w.rules = table) (hc : table[idOf name]? = some callee)
    (hv : callee.hasValue = true) (ha : Steps w rule a ctx c ctx₁ c₁) (h : Maybe w name args c₁ d v)
    (ht : k.target = some (idOf name)) (hargs : rule.argumentsOf k ctx₁ = args) (hl : args.length = k.arity) :
    Steps w rule (.seq a (.opt (.call k))) ctx c (v.elim ctx₁ (rule.takeUp k.label ctx₁)) d := by
  cases v with
  | none =>
    obtain ⟨rfl, c₂, ho, hmiss⟩ := h
    exact ha.without hw ho (hmiss.call ht hargs hl)
  | some v =>
    obtain ⟨c₂, ho, hpart⟩ := h
    exact ha.next hw ho (.opt (.call hw hc hv hpart ht hargs hl))

/-! ## Rows -/

/-- Values under a name in the order they came; nothing is kept there as long as there are none. -/
def Keeps {α : Type} (ctx : Context Value) (name : String) (into : α → Value) (items : List α) : Prop :=
  ctx.get? name = some (.list (items.map into)) ∨ items = [] ∧ ctx.get? name = none

section
variable {α : Type} {content? : Value → Option α} {into : α → Value} {items : List α}

theorem Keeps.push (h : Keeps ctx name into items) (a : α) :
    Keeps (pushItem name ctx (into a)) name into (items ++ [a]) ∧ (pushItem name ctx (into a)).start = ctx.start := by
  rcases h with h | ⟨rfl, h⟩
  · rw [show pushItem name ctx (into a) = ctx.set name (.list ((items ++ [a]).map into)) by simp [pushItem, h]]
    exact ⟨.inl (get?_set_self _ _ _), rfl⟩
  · rw [show pushItem name ctx (into a) = ctx.set name (.list [into a]) by simp [pushItem, h]]
    exact ⟨.inl (get?_set_self _ _ _), rfl⟩

theorem Keeps.taken (h : Keeps ctx name into items) (hinto : ∀ a, content? (into a) = some a) :
    takeItems content? name ctx = (some items, (ctx.take name).2) := by
  rcases h with h | ⟨rfl, h⟩
  · exact takeItems_of_get? hinto h
  · simp only [takeItems, Context.take, h]

end

end

/-- Parts read by a rule, one after the other. -/
inductive Row {α : Type} (w : World Value) (name : String) (into : α → Value) : Cursor → List α → Cursor → Prop
  | nil {c : Cursor} : Row w name into c [] c
  | cons {c c₁ c₂ d : Cursor} {a : α} {items : List α} (ho : Over c c₁) (h : Part w name [] c₁ (into a) c₂)
      (hr : Row w name into c₂ items d) : Row w name into c (a :: items) d

section
variable {α : Type} {w : World Value} {rule callee : Rule Value} {ctx : Context Value} {c c₁ c₂ c₃ d : Cursor}
  {name key : String} {into : α → Value} {items acc : List α} {a : α} {k : Call}

theorem Part.rest_ne {args : List Value} {v : Value} (h : Part w name args c v d) : c.rest ≠ [] := by
  intro hnil
  obtain ⟨ctx, -, hd⟩ := h.yields
  obtain ⟨x, hx⟩ := hd.spans
  have hrest := hx.rest
  rw [hnil] at hrest
  obtain rfl := (List.append_eq_nil_iff.1 hrest.symm).1
  exact h.moves (by rw [hx.offset]; rfl)

/-- Calls of the rule with a name put its values under a key. -/
structure Gathers (rule : Rule Value) (k : Call) (name key : String) : Prop where
  target : k.target = some (idOf name)
  callee : ∃ callee, table[idOf name]? = some callee ∧ callee.hasValue = true
  plain : k.arity = 0 ∧ ∀ ctx, rule.argumentsOf k ctx = []
  pushes : ∀ ctx v, rule.takeUp k.label ctx v = pushItem key ctx v

theorem Gathers.call (hk : Gathers rule k name key) (hw : w.rules = table) (h : Part w name [] c (into a) d)
    (hctx : Keeps ctx key into acc) :
    ∃ ctx', Keeps ctx' key into (acc ++ [a]) ∧ ctx'.start = ctx.start ∧
      Derives w blanks (.pattern rule (.call k) ctx) c (.hit ctx' d) := by
  obtain ⟨callee, hc, hv⟩ := hk.callee
  obtain ⟨hkeeps, hstart⟩ := hctx.push a
  refine ⟨_, hkeeps, hstart, ?_⟩
  rw [← hk.pushes]
  exact h.yields.call hw hc hv hk.target (hk.plain.2 ctx) hk.plain.1.symm

/-- Rounds over a row, up to where they end. -/
theorem Row.rounds (hk : Gathers rule k name key) (hw : w.rules = table) (h : Row w name into c items d)
    (hend : ∀ ctx, Derives w blanks (.rounds rule (.call k) false ctx) d (.hit ctx d))
    (hctx : Keeps ctx key into acc) :
    ∃ ctx', Keeps ctx' key into (acc ++ items) ∧ ctx'.start = ctx.start ∧
      Derives w blanks (.rounds rule (.call k) false ctx) c (.hit ctx' d) := by
  induction h generalizing ctx acc with
  | nil => exact ⟨ctx, by simpa using hctx, rfl, hend ctx⟩
  | cons ho h _ ih =>
    rename_i c _ _ _ _ _
    obtain ⟨ctx₁, hctx₁, hstart₁, hcall⟩ := hk.call hw h hctx
    obtain ⟨ctx₂, hctx₂, hstart₂, hrounds⟩ := ih hend hctx₁
    refine ⟨ctx₂, by simpa using hctx₂, hstart₂.trans hstart₁, .rounds_hit ?_ (ho.skips hw ctx) hcall hrounds⟩
    obtain ⟨g, -, hg, -⟩ := ho
    rw [hg.rest]
    exact fun hnil => h.rest_ne (List.append_eq_nil_iff.1 hnil).2

/-- The rounds from the first part of a row on. -/
theorem Row.many (hk : Gathers rule k name key) (hw : w.rules = table) (hfirst : Part w name [] c (into a) c₁)
    (h : Row w name into c₁ items d)
    (hend : ∀ ctx, Derives w blanks (.rounds rule (.call k) false ctx) d (.hit ctx d))
    (hctx : Keeps ctx key into []) :
    ∃ ctx', Keeps ctx' key into (a :: items) ∧ ctx'.start = ctx.start ∧
      Steps w rule (.many (.call k)) ctx c ctx' d := by
  obtain ⟨ctx₁, hctx₁, hstart₁, hcall⟩ := hk.call hw hfirst hctx
  obtain ⟨ctx₂, hctx₂, hstart₂, hrounds⟩ := h.rounds hk hw hend hctx₁
  refine ⟨ctx₂, hctx₂, hstart₂.trans hstart₁, .many (.rounds_hit hfirst.rest_ne .skip_none hcall hrounds), ?_⟩
  obtain ⟨x, hx⟩ := hcall.spans
  obtain ⟨y, hy⟩ := hrounds.spans
  have := hfirst.moves
  have := hx.offset
  have := hy.offset
  omega

end

end PegFront.Cminor
