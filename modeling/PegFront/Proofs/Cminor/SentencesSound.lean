import PegFront.Proofs.Cminor.SentencesRead

/-!
# What is read as a statement is a text of the grammar

The converse of `Says.part`: where the rule for statements hits, the text it takes up is a statement, and the value is
its tree. As with expressions the rules are only taken apart into texts; the trees come from the other direction.
-/

namespace PegFront.Cminor

open Statements

section
variable {w : World Value} {rule callee : Rule Value} {a b p : Pattern} {c c₀ c₁ c₂ d : Cursor} {name label : String}
  {args : List Value} {ctx ctx₁ ctx₂ : Context Value} {x : List Char} {v : Value} {s : Statement}

/-! ## Types -/

theorem qualified_inv (hw : w.rules = table) (h : Yields w blanks "QualifiedId" [] c v d) :
    ∃ x, Dotted x ∧ c.Spans x d ∧ WordEnd d.rest ∧ v = .identifier ⟨String.ofList x, w.span c d⟩ := by
  obtain ⟨ctx, hv, h⟩ := h
  obtain ⟨ctx₁, h, hact⟩ := Derives.act_inv rfl (Derives.rule_inv (hw ▸ table_qualified) h)
  have hname : ∀ {ctx ctx' : Context Value} {c d : Cursor}, Derives w none (.pattern qualifiedRule nameItem ctx) c
      (.hit ctx' d) → ∃ x, isName x = true ∧ c.Spans x d ∧ WordEnd d.rest := by
    intro ctx ctx' c d h
    obtain ⟨v, -, hy⟩ := yields_of_call hw table_name rfl rfl h
    obtain ⟨x, hx, hc, hend, -⟩ := name_inv hw hy
    exact ⟨x, hx, hc, hend⟩
  obtain ⟨x, hx, hc, hend⟩ : ∃ x, Dotted x ∧ c.Spans x d ∧ WordEnd d.rest := by
    cases Derives.token_inv h with
    | list_hit hfirst hitems =>
      obtain ⟨x, hx, hc, hend⟩ := hname hfirst
      -- The dotted name from `c` on grows with every item.
      refine Derives.items_rec (M := fun _ c₁ => ∀ x, Dotted x → c.Spans x c₁ → WordEnd c₁.rest →
        ∃ x, Dotted x ∧ c.Spans x d ∧ WordEnd d.rest) hitems ?_ ?_ x (.name hx) hc hend
      · exact fun _ x hx hc hend => ⟨x, hx, hc, hend⟩
      · intro ctx ctx₁ ctx₂ c₀ c₁ c₂ c₃ c₄ hs hdot hs' hitem hmore x hx hc _
        cases hs
        cases hs'
        obtain ⟨-, hdot⟩ := Derives.char_inv hdot
        obtain ⟨y, hy, hc', hend⟩ := hname hitem
        exact hmore _ (hx.snoc hy) (hc.trans (hdot.trans hc')) hend
  refine ⟨x, hx, hc, hend, ?_⟩
  rw [w.matched_of_spans hc] at hact
  cases hact
  exact (Option.some.inj hv).symm

/-- Whether a basic type begins here is known from the word that begins here. -/
theorem basic_spec (hw : w.rules = table) (c : Cursor) (ctx : Context Value) :
    (∃ (t : BasicType) (d : Cursor), c.Spans t.keyword.toList d ∧ WordEnd d.rest ∧
      Derives w blanks (.pattern typeRule basicPart ctx) c (.hit (ctx.setValue (.type (.basic t (w.span c d)))) d)) ∨
    Derives w blanks (.pattern typeRule basicPart ctx) c (.miss ctx) := by
  by_cases hbasic : ∀ x d, isWord x = true → c.Spans x d → WordEnd d.rest → String.ofList x ∉ BasicType.all.map (·.keyword)
  · exact .inr (basic_miss hw hbasic)
  · simp only [not_forall, not_not] at hbasic
    obtain ⟨x, d, hx, hc, hend, hmem⟩ := hbasic
    obtain ⟨t, -, ht⟩ := List.mem_map.1 hmem
    obtain rfl : t.keyword.toList = x := by rw [ht, String.toList_ofList]
    refine .inl ⟨t, d, hc, hend, .act_true Types.basic rfl (ofWords_hit hw rfl hx hc hend hmem) ?_⟩
    rw [w.matched_of_spans hc, Types.basic, String.ofList_toList, t.ofKeyword?_keyword]

/-- A pair of brackets changes the context only through its action. -/
theorem brackets_inv (h : Derives w blanks (.pattern typeRule (.seq (.char '[') (.char ']')) ctx) c (.hit ctx₁ d)) :
    ctx₁ = ctx ∧ ∃ c₁ c₂, c.Spans ['['] c₁ ∧ Derives w blanks (.skip ctx) c₁ (.hit ctx c₂) ∧ c₂.Spans [']'] d := by
  obtain ⟨ctx₂, c₁, c₂, e, h₁, hs, h₂, hd⟩ := Derives.seq_inv h
  obtain ⟨rfl, hopen⟩ := Derives.char_inv h₁
  obtain ⟨rfl, hclose⟩ := Derives.char_inv h₂
  have hmove := Spans.moves hclose (by simp)
  rcases hd with ⟨-, rfl⟩ | ⟨rfl, -⟩
  · exact ⟨rfl, c₁, c₂, hopen, hs, hclose⟩
  · exact absurd rfl hmove

theorem array_action {t : TypeExpr} {o : Nat} (w : World Value) (c d : Cursor) (hctx : Holds ctx o t) :
    ∃ ctx', Holds ctx' o (.array t ⟨w.fileIndex, o, d.offset⟩) ∧ Types.array ctx (w.matched c d) = (true, ctx') := by
  obtain ⟨vars, value, start⟩ := ctx
  obtain rfl : value = some (.type t) := hctx.value
  obtain rfl : start = o := hctx.start
  exact ⟨_, ⟨rfl, rfl⟩, rfl⟩

/-- Where no brackets follow, nothing changes. -/
theorem array_of_miss (h : Derives w blanks (.pattern typeRule arrayPart ctx) c (.miss ctx₁)) {t : TypeExpr} {o : Nat}
    (hctx : Holds ctx o t) : ctx₁ = ctx := by
  rcases act_miss_inv h with h' | ⟨ctx₂, d, h'⟩
  · cases h' with
    | seq_first h => cases h; rfl
    | seq_second h₁ _ h₂ =>
      obtain ⟨rfl, -⟩ := Derives.char_inv h₁
      cases h₂
      rfl
  · obtain ⟨rfl, -⟩ := brackets_inv h'
    obtain ⟨ctx', -, hact⟩ := array_action w c d hctx
    cases h.unique (.act_true Types.array rfl h' hact)

theorem type_sound (hw : w.rules = table) (h : Yields w blanks "TypeExpr" [] c v d) :
    ∃ x t, TypeText w.fileIndex c.offset x t ∧ c.Spans x d ∧ v = .type t ∧ (t.isArray = true ∨ WordEnd d.rest) := by
  obtain ⟨ctx, hv, h⟩ := h
  obtain ⟨ctx₁, c₁, hfirst, hrounds⟩ := seq_many_inv array_repeats (Derives.rule_inv (hw ▸ table_type) h)
  obtain ⟨x, t, hx, hspan, hctx, hend⟩ : ∃ x t, TypeText w.fileIndex c.offset x t ∧ c.Spans x c₁ ∧
      Holds ctx₁ c.offset t ∧ WordEnd c₁.rest := by
    obtain ⟨b, e, hc, hend, hhit⟩ | hmiss := basic_spec hw c (.enter typeRule.attributes [] c.offset)
    · cases hfirst.unique (.alt_first hhit)
      exact ⟨_, _, .basic b, hc, ⟨by rw [spanAt_eq hc]; rfl, rfl⟩, hend⟩
    · obtain h | ⟨ctx₂, hmiss', h⟩ := Derives.alt_inv hfirst
      · cases h.unique hmiss
      · cases hmiss'.unique hmiss
        obtain ⟨ctx₃, hcall, hact⟩ := Derives.act_true_inv Types.named rfl h
        obtain ⟨v', rfl, hy⟩ := yields_of_call hw table_qualified rfl rfl hcall
        obtain ⟨x, hx, hc, hend, rfl⟩ := qualified_inv hw hy
        cases hact
        exact ⟨x, _, .named hx, hc, ⟨by rw [spanAt_eq hc]; rfl, rfl⟩, hend⟩
  -- The text from `c` on grows with every pair of brackets.
  refine Derives.rounds_rec (M := fun first ctx₁ c₁ => first = false → ∀ x t, Holds ctx₁ c.offset t →
    TypeText w.fileIndex c.offset x t → c.Spans x c₁ → (t.isArray = true ∨ WordEnd c₁.rest) →
    ∃ x t, TypeText w.fileIndex c.offset x t ∧ c.Spans x d ∧ v = .type t ∧ (t.isArray = true ∨ WordEnd d.rest)) hrounds
    ?_ ?_ ?_ rfl x t hctx hx hspan (.inr hend)
  · intro first _ _ x t hctx hx hspan hend
    exact ⟨x, t, hx, hspan, Option.some.inj (hv.symm.trans hctx.value), hend⟩
  · intro first ctx₁ c₁ _ hs hmiss hfirst x t hctx hx hspan hend
    obtain rfl := array_of_miss hmiss hctx
    exact ⟨x, t, hx, hspan, Option.some.inj (hv.symm.trans hctx.value), hend⟩
  · intro first ctx₁ ctx₂ c₁ c₂ c₃ hc hs hhit hmore hfirst x t hctx hx hspan _
    subst hfirst
    obtain ⟨ctx₃, hpair, hact⟩ := Derives.act_true_inv Types.array rfl hhit
    obtain ⟨rfl, c₄, c₅, hopen, hs', hclose⟩ := brackets_inv hpair
    obtain ⟨g, hg, hgap, -⟩ := gap_of_skip hw hs (by rw [hopen.rest]; exact List.cons_ne_nil _ _)
    obtain ⟨g', hg', hgap', -⟩ := gap_of_skip hw hs' (by rw [hclose.rest]; exact List.cons_ne_nil _ _)
    have hwhole := (((hspan.trans hgap).trans hopen).trans hgap').trans hclose
    obtain ⟨ctx', hctx', hact'⟩ := array_action w c₂ c₃ hctx
    cases hact.symm.trans hact'
    refine hmore rfl _ _ ?_ (.array hx hg hg') hwhole (.inl rfl)
    rw [spanAt_eq hwhole]
    exact hctx'

/-! ## What takes up text -/

/-- A piece of a rule takes up text wherever it hits. -/
structure Advances (w : World Value) (rule : Rule Value) (p : Pattern) : Prop where
  moves : ∀ {ctx ctx' : Context Value} {c d : Cursor}, Derives w blanks (.pattern rule p ctx) c (.hit ctx' d) →
    d.offset ≠ c.offset

namespace Advances

theorem char (ch : Char) : Advances w rule (.char ch) := ⟨fun h => Spans.moves (Derives.char_inv h).2 (by simp)⟩

theorem keyword {word : String} (hword : isWord word.toList = true) : Advances w rule (.keyword word) := by
  refine ⟨fun {ctx ctx' c d} h => ?_⟩
  refine Spans.moves (keyword_inv h).2.1 fun hnil => ?_
  rw [hnil] at hword
  cases hword

theorem expect (h : Advances w rule p) : Advances w rule (.expect p) :=
  ⟨fun hd => h.moves (Derives.expect_inv hd)⟩

theorem act {f : Action Value} (hf : rule.action? name = some f) (h : Advances w rule p) : Advances w rule (.act name p) :=
  ⟨fun hd => h.moves (Derives.act_inv hf hd).choose_spec.1⟩

/-- A sequence begins with its first part. -/
theorem first (h : Advances w rule a) : Advances w rule (.seq a b) := by
  refine ⟨fun {ctx ctx' c d} hd => ?_⟩
  obtain ⟨ctx₁, c₁, c₂, e, ha, hs, hb, hd⟩ := Derives.seq_inv hd
  obtain ⟨x, hx⟩ := ha.spans
  obtain ⟨y, hy⟩ := hs.spans
  obtain ⟨z, hz⟩ := hb.spans
  have := h.moves ha
  have := hx.offset
  have := hy.offset
  have := hz.offset
  rcases hd with ⟨-, rfl⟩ | ⟨-, rfl⟩ <;> omega

theorem call {k : Call} (hw : w.rules = table) (hc : table[idOf name]? = some callee) (hv : callee.hasValue = true)
    (ht : k.target = some (idOf name)) (h : Advances w callee callee.definition) : Advances w rule (.call k) := by
  refine ⟨fun {ctx ctx' c d} hd => ?_⟩
  obtain ⟨v, -, ctx₁, -, hy⟩ := yields_of_call hw hc hv ht hd
  exact h.moves (Derives.rule_inv (hw ▸ hc) hy)

end Advances

theorem Yields.not_stops (h : Yields w blanks name args c v d) : ¬ Stops w blanks name args c := by
  intro hstop
  obtain ⟨ctx, -, hd⟩ := h
  cases hd.unique hstop

/-- What a rule reads is not empty if its definition takes up text. -/
theorem Advances.yields (hw : w.rules = table) (hc : table[idOf name]? = some callee) (h : Advances w callee callee.definition)
    (hy : Yields w blanks name args c v d) : d.offset ≠ c.offset := by
  obtain ⟨ctx, -, hy⟩ := hy
  exact h.moves (Derives.rule_inv (hw ▸ hc) hy)

/-- A sequence whose second part takes up text. -/
theorem seq_next_inv (hw : w.rules = table) (hb : Advances w rule b)
    (h : Derives w blanks (.pattern rule (.seq a b) ctx) c (.hit ctx₂ d)) :
    ∃ ctx₁ c₁ c₂, Derives w blanks (.pattern rule a ctx) c (.hit ctx₁ c₁) ∧ Over c₁ c₂ ∧
      Derives w blanks (.pattern rule b ctx₁) c₂ (.hit ctx₂ d) := by
  obtain ⟨ctx₁, c₁, c₂, g, ha, hg, hs, hsolid, hb⟩ := seq_over_inv hw h fun _ _ _ _ _ _ _ hb' => hb.moves hb'
  exact ⟨ctx₁, c₁, c₂, ha, ⟨g, hg, hs, hsolid⟩, hb⟩

/-! ## Calls -/

theorem expression_call_inv (hw : w.rules = table) (hp : rule.preCall? label = some Expressions.rvalue)
    (h : Derives w blanks (.pattern rule (.call (callAt label "Expression" 1)) ctx) c (.hit ctx₁ d)) :
    ∃ x e, Reads w.fileIndex false 0 c.offset x e ∧ c.Spans x d := by
  obtain ⟨v, -, hy⟩ := yields_of_call hw table_expression rfl rfl h
  have hargs : rule.argumentsOf (callAt label "Expression" 1) ctx = [.mode {}] := by
    simp only [Rule.argumentsOf, callAt, hp]
    rfl
  rw [hargs] at hy
  obtain ⟨x, e, hreads, hspan, -⟩ := (sound hw c).expression hw hy
  exact ⟨x, e, hreads, hspan⟩

theorem advances_expression (hw : w.rules = table) (hp : rule.preCall? label = some Expressions.rvalue) :
    Advances w rule (.call (callAt label "Expression" 1)) := by
  refine ⟨fun {ctx ctx' c d} h => ?_⟩
  obtain ⟨x, e, hreads, hspan⟩ := expression_call_inv hw hp h
  exact Spans.moves hspan hreads.nonempty

theorem type_call_inv (hw : w.rules = table) (hp : rule.preCall? label = none)
    (h : Derives w blanks (.pattern rule (.call (callAt label "TypeExpr" 0)) ctx) c (.hit ctx₁ d)) :
    ∃ x t, TypeText w.fileIndex c.offset x t ∧ c.Spans x d ∧ (t.isArray = true ∨ WordEnd d.rest) := by
  obtain ⟨v, -, hy⟩ := yields_of_call hw table_type rfl rfl h
  have hargs : rule.argumentsOf (callAt label "TypeExpr" 0) ctx = [] := by simp only [Rule.argumentsOf, callAt, hp]
  rw [hargs] at hy
  obtain ⟨x, t, hx, hspan, -, hend⟩ := type_sound hw hy
  exact ⟨x, t, hx, hspan, hend⟩

theorem advances_type (hw : w.rules = table) (hp : rule.preCall? label = none) :
    Advances w rule (.call (callAt label "TypeExpr" 0)) := by
  refine ⟨fun {ctx ctx' c d} h => ?_⟩
  obtain ⟨x, t, hx, hspan, -⟩ := type_call_inv hw hp h
  obtain ⟨ch, y, rfl, -⟩ := hx.head
  exact Spans.moves hspan (by simp)

theorem name_call_inv (hw : w.rules = table) (hp : rule.preCall? "Identifier" = none)
    (h : Derives w blanks (.pattern rule (.call (callAt "Identifier" "Identifier" 0)) ctx) c (.hit ctx₁ d)) :
    ∃ x, isName x = true ∧ c.Spans x d ∧ WordEnd d.rest := by
  obtain ⟨v, -, hy⟩ := yields_of_call hw table_name rfl rfl h
  have hargs : rule.argumentsOf (callAt "Identifier" "Identifier" 0) ctx = [] := by
    simp only [Rule.argumentsOf, callAt, hp]
  rw [hargs] at hy
  obtain ⟨x, hx, hspan, hend, -⟩ := name_inv hw hy
  exact ⟨x, hx, hspan, hend⟩

theorem target_call_inv (hw : w.rules = table)
    (h : Derives w blanks (.pattern (ofStatements assignmentBodyRule) (.call (callAt "Target" "Postfix" 1)) ctx) c
      (.hit ctx₁ d)) : ∃ x e, Reads w.fileIndex true 8 c.offset x e ∧ c.Spans x d := by
  obtain ⟨v, -, hy⟩ := yields_of_call hw table_postfix rfl rfl h
  obtain ⟨x, e, hreads, hspan, -⟩ := sound hw c true 8 v d (by decide) hy
  exact ⟨x, e, hreads, hspan⟩

theorem advances_target (hw : w.rules = table) :
    Advances w (ofStatements assignmentBodyRule) (.call (callAt "Target" "Postfix" 1)) := by
  refine ⟨fun {ctx ctx' c d} h => ?_⟩
  obtain ⟨x, e, hreads, hspan⟩ := target_call_inv hw h
  exact Spans.moves hspan hreads.nonempty

theorem advances_bodies (hw : w.rules = table) : ∀ n ∈ bodies, ∃ callee, table[idOf n]? = some callee ∧
    Advances w callee callee.definition := by
  simp only [bodies, List.forall_mem_cons, List.not_mem_nil, false_implies, implies_true, and_true]
  exact ⟨⟨_, table_constructionBody, .act rfl (.first (.first (advances_type hw rfl)))⟩,
    ⟨_, table_assignmentBody, .act rfl (.first (.first (advances_target hw)))⟩,
    ⟨_, table_expressionBody, .act rfl (advances_expression hw rfl)⟩⟩

theorem advances_statement (hw : w.rules = table) (h : Yields w blanks "Statement" [] c v d) : d.offset ≠ c.offset := by
  have hkey : ∀ {rule : Rule Value} {word : String}, word ∈ leads → Advances w rule (.keyword word) := fun h =>
    .keyword ((by decide : ∀ word ∈ leads, isWord word.toList = true) _ h)
  have hterminated : ∀ {name body : String}, Terminates name body → body ∈ bodies →
      Advances w (ofStatements (terminated name body)) (ofStatements (terminated name body)).definition := by
    intro name body ht hbody
    obtain ⟨callee, hc, hv⟩ := ht.callee
    obtain ⟨callee', hc', hadvances⟩ := advances_bodies hw body hbody
    cases hc.symm.trans hc'
    exact .act rfl (.first (.call (k := ⟨"Body", body, 0, some (idOf (calledName body))⟩) hw hc hv (by rw [ht.called])
      hadvances))
  obtain ⟨n, hn, h⟩ := chooses_statement.inv hw h
  simp only [alternatives, List.mem_cons, List.not_mem_nil, or_false] at hn
  rcases hn with rfl | rfl | rfl | rfl | rfl | rfl | rfl | rfl | rfl | rfl | rfl | rfl
  · exact Advances.yields hw table_compound (.first (.first (.act rfl (.char _)))) h
  · exact Advances.yields hw table_if (.act rfl (.first (.first (.first (.first (.first (hkey (by decide)))))))) h
  · exact Advances.yields hw table_while (.act rfl (.first (.first (.first (.first (hkey (by decide))))))) h
  · exact Advances.yields hw table_doWhile (.act rfl (.first (.first (.first (.first (.first (.first
      (hkey (by decide))))))))) h
  · exact Advances.yields hw table_for (.act rfl (.first (.first (.first (.first (.first (.first (.first (.first
      (hkey (by decide))))))))))) h
  · exact Advances.yields hw table_return (.act rfl (.first (.first (hkey (by decide))))) h
  · exact Advances.yields hw table_break (.act rfl (.first (hkey (by decide)))) h
  · exact Advances.yields hw table_continue (.act rfl (.first (hkey (by decide)))) h
  · exact Advances.yields hw terminates_construction.place (hterminated terminates_construction (by decide)) h
  · exact Advances.yields hw terminates_assignment.place (hterminated terminates_assignment (by decide)) h
  · exact Advances.yields hw terminates_expression.place (hterminated terminates_expression (by decide)) h
  · exact Advances.yields hw table_empty (.act rfl (.char _)) h

/-! ## Parts -/

theorem condition_inv (hw : w.rules = table) (hp : rule.preCall? "Cond" = some Expressions.rvalue)
    (hopen : ∀ {ctx ctx' : Context Value} {c d : Cursor}, Derives w blanks (.pattern rule p ctx) c (.hit ctx' d) →
      c.Spans ['('] d)
    (h : Derives w blanks (.pattern rule (.seq (.seq (.seq a p) (.expect (.call (callAt "Cond" "Expression" 1))))
      (.expect (.char ')'))) ctx) c (.hit ctx₁ d)) :
    ∃ ctx₂ c₁ c₂ g x e, Derives w blanks (.pattern rule a ctx) c (.hit ctx₂ c₁) ∧ Gap g ∧ c₁.Spans g c₂ ∧
      Enclosed w.fileIndex c₂.offset x e ∧ c₂.Spans x d := by
  obtain ⟨c₅, c₆, g₂, h, hg₂, hs₂, hclose⟩ := seq_must_inv hw h
  obtain ⟨ctx₂, c₃, c₄, h, ⟨g₁, hg₁, hs₁, -⟩, hcond⟩ := seq_next_inv hw (.expect (advances_expression hw hp)) h
  obtain ⟨ctx₃, c₁, c₂, ha, ⟨g, hg, hs, -⟩, hp'⟩ := seq_next_inv hw ⟨fun h => Spans.moves (hopen h) (by simp)⟩ h
  obtain ⟨x, e, hreads, hspan⟩ := expression_call_inv hw hp (Derives.expect_inv hcond)
  have hbegin := (hopen hp').trans hs₁
  exact ⟨ctx₃, c₁, c₂, g, _, e, ha, hg, hs, .mk hg₁ hbegin.offset hreads hg₂, ((hbegin.trans hspan).trans hs₂).trans hclose⟩

/-- What may be left out before a char that must be there. -/
theorem optional_inv {α : Type} {R : Nat → List Char → α → Prop} {ch : Char} (hw : w.rules = table)
    (hk : Advances w rule p)
    (hcall : ∀ {ctx ctx' : Context Value} {c d d' d'' : Cursor}, Derives w blanks (.pattern rule p ctx) c (.hit ctx' d) →
      Over d d' → d'.Spans [ch] d'' → ∃ x a, R c.offset x a ∧ c.Spans x d)
    (h : Derives w blanks (.pattern rule (.seq (.seq a (.opt p)) (.expect (.char ch))) ctx) c (.hit ctx₁ d)) :
    ∃ ctx₂ c₁ c₂ c₃ x v g, Derives w blanks (.pattern rule a ctx) c (.hit ctx₂ c₁) ∧ Optionally R c₁.offset x v ∧
      c₁.Spans x c₂ ∧ Gap g ∧ c₂.Spans g c₃ ∧ c₃.Spans [ch] d := by
  obtain ⟨ctx₂, c₂, c₃, h, ⟨g, hg, hs, hsolid⟩, hch⟩ := seq_next_inv hw (.expect (.char ch)) h
  obtain ⟨-, hch⟩ := Derives.char_inv (Derives.expect_inv hch)
  obtain ⟨ctx₃, c₁, c', e, ha, hskip, hopt, hd⟩ := Derives.seq_inv h
  obtain hhit | ⟨-, rfl⟩ := Derives.opt_inv hopt
  · obtain rfl : c₂ = e := by
      rcases hd with ⟨-, hd⟩ | ⟨rfl, -⟩
      · exact hd
      · exact absurd rfl (hk.moves hhit)
    obtain ⟨x, y, hx, hspan⟩ := hcall hhit ⟨g, hg, hs, hsolid⟩ hch
    have hne : c'.rest ≠ [] := by
      intro hnil
      have hrest := hspan.rest
      rw [hnil] at hrest
      obtain rfl := (List.append_eq_nil_iff.1 hrest.symm).1
      exact hk.moves hhit (by rw [hspan.offset]; rfl)
    obtain ⟨g', hg', hs', -⟩ := gap_of_skip hw hskip hne
    exact ⟨ctx₃, c₁, c₂, c₃, _, _, g, ha, .some hg' hs'.offset hx, hs'.trans hspan, hg, hs, hch⟩
  · obtain rfl : c₂ = c₁ := by
      rcases hd with ⟨hne, -⟩ | ⟨-, hd⟩
      · exact absurd rfl hne
      · exact hd
    exact ⟨ctx₃, c₂, c₂, c₃, _, _, g, ha, .none, .rfl, hg, hs, hch⟩

/-! ## Before a semicolon -/

theorem assigned_inv (hw : w.rules = table) {ctx' : Context Value}
    (hp : rule.preCall? label = some Expressions.rvalue) (hsign : c.Spans ['='] c₁) (ho : Over c₁ c₂)
    (h : Derives w blanks (.pattern rule (.expect (.call (callAt label "Expression" 1))) ctx') c₂ (.hit ctx₁ d)) :
    ∃ x e, Assigned w.fileIndex c.offset x e ∧ c.Spans x d := by
  obtain ⟨g, hg, hs, -⟩ := ho
  obtain ⟨x, e, hreads, hspan⟩ := expression_call_inv hw hp (Derives.expect_inv h)
  exact ⟨_, e, .mk hg (hsign.trans hs).offset hreads, (hsign.trans hs).trans hspan⟩

/-- A type before a name. -/
theorem declared_inv (hw : w.rules = table) (hp : rule.preCall? label = none)
    (hname : ∀ {ctx ctx' : Context Value} {c d : Cursor}, Derives w blanks (.pattern rule b ctx) c (.hit ctx' d) →
      ∃ y, isName y = true ∧ c.Spans y d ∧ WordEnd d.rest)
    (h : Derives w blanks (.pattern rule (.seq (.call (callAt label "TypeExpr" 0)) b) ctx) c (.hit ctx₁ d)) :
    ∃ x t g y, TypeText w.fileIndex c.offset x t ∧ Gap g ∧ (t.isArray = true ∨ g ≠ []) ∧ isName y = true ∧
      c.Spans (x ++ g ++ y) d ∧ WordEnd d.rest := by
  have hmoves : Advances w rule b := by
    refine ⟨fun {ctx ctx' c d} h => ?_⟩
    obtain ⟨y, hy, hspan, -⟩ := hname h
    obtain ⟨ch, z, rfl, -⟩ := head_of_isName hy
    exact Spans.moves hspan (List.cons_ne_nil _ _)
  obtain ⟨ctx₂, c₁, c₂, htype, ⟨g, hg, hs, -⟩, hb⟩ := seq_next_inv hw hmoves h
  obtain ⟨x, t, hx, hxspan, hend⟩ := type_call_inv hw hp htype
  obtain ⟨y, hy, hyspan, hyend⟩ := hname hb
  refine ⟨x, t, g, y, hx, hg, hend.imp_right fun hend hnil => ?_, hy, (hxspan.trans hs).trans hyspan, hyend⟩
  subst hnil
  obtain ⟨ch, z, rfl, hch⟩ := head_of_isName hy
  have hword := hend ch (by rw [hs.rest, hyspan.rest]; rfl)
  rw [isWordChar_of_start hch] at hword
  cases hword

theorem construction_sound (hw : w.rules = table) (h : Yields w blanks "ConstructionBody" [] c v d) :
    ∃ x s, BodyText w.fileIndex c.offset x s ∧ c.Spans x d := by
  obtain ⟨ctx, -, h⟩ := h
  obtain ⟨ctx₁, h, -⟩ := Derives.act_inv rfl (Derives.rule_inv (hw ▸ table_constructionBody) h)
  obtain ⟨ctx₂, c₃, c₄, e, hhead, hskip, hopt, hd⟩ := Derives.seq_inv h
  obtain ⟨x, t, g, y, hx, hg, hsep, hy, hbegin, -⟩ := declared_inv hw rfl (name_call_inv hw rfl) hhead
  obtain ⟨i, init, hi, hispan⟩ : ∃ i init, Optionally (Assigned w.fileIndex) c₃.offset i init ∧ c₃.Spans i d := by
    obtain hhit | ⟨-, rfl⟩ := Derives.opt_inv hopt
    · obtain ⟨ctx₄, c₅, c₆, hsign, hover, hvalue⟩ := seq_next_inv hw (.expect (advances_expression hw rfl)) hhit
      obtain ⟨-, hsign⟩ := Derives.char_inv hsign
      obtain ⟨z, e', hassigned, hzspan⟩ := assigned_inv hw rfl hsign hover hvalue
      obtain ⟨g', hg', hs', -⟩ := gap_of_skip hw hskip (by rw [hsign.rest]; exact List.cons_ne_nil _ _)
      obtain rfl : d = e := by
        rcases hd with ⟨-, hd⟩ | ⟨rfl, -⟩
        · exact hd
        · exact absurd rfl ((Advances.char '=').first.moves hhit)
      exact ⟨_, _, .some hg' hs'.offset hassigned, hs'.trans hzspan⟩
    · obtain rfl : d = c₃ := by
        rcases hd with ⟨hne, -⟩ | ⟨-, hd⟩
        · exact absurd rfl hne
        · exact hd
      exact ⟨_, _, .none, .rfl⟩
  exact ⟨_, _, .construction hx hg hsep hy rfl hbegin.offset hi, hbegin.trans hispan⟩

theorem assign_inv (h : Derives w blanks (.pattern rule (.diff (.char '=') (.text "==")) ctx) c (.hit ctx₁ d)) :
    c.Spans ['='] d := by
  cases h with
  | diff_apart h | diff_longer h => exact (Derives.char_inv h).2

theorem assignment_sound (hw : w.rules = table) (h : Yields w blanks "AssignmentBody" [] c v d) :
    ∃ x s, BodyText w.fileIndex c.offset x s ∧ c.Spans x d ∧ s.isConstruction = false := by
  obtain ⟨ctx, -, h⟩ := h
  obtain ⟨ctx₁, h, -⟩ := Derives.act_inv rfl (Derives.rule_inv (hw ▸ table_assignmentBody) h)
  obtain ⟨ctx₂, c₃, c₄, h, hover, hvalue⟩ := seq_next_inv hw (.expect (advances_expression hw rfl)) h
  obtain ⟨ctx₃, c₁, c₂, htarget, ⟨g, hg, hs, -⟩, hsign⟩ := seq_next_inv hw
    ⟨fun h => Spans.moves (assign_inv h) (by simp)⟩ h
  obtain ⟨x, e, hreads, hspan⟩ := target_call_inv hw htarget
  obtain ⟨y, e', hy, hyspan⟩ := assigned_inv hw rfl (assign_inv hsign) hover hvalue
  exact ⟨_, _, .assignment hreads hg (hspan.trans hs).offset hy, (hspan.trans hs).trans hyspan, rfl⟩

theorem expressionBody_inv (hw : w.rules = table) (h : Yields w blanks "ExpressionBody" [] c v d) :
    ∃ x e, Reads w.fileIndex false 0 c.offset x e ∧ c.Spans x d := by
  obtain ⟨ctx, -, h⟩ := h
  obtain ⟨ctx₁, h, -⟩ := Derives.act_inv rfl (Derives.rule_inv (hw ▸ table_expressionBody) h)
  exact expression_call_inv hw rfl h

/-- An expression whose first operand fails for good is not reached: the attempt to read an assignment comes first. -/
theorem unstopped_or_stops (hw : w.rules = table) {e : Expr} (h : Reads w.fileIndex false 0 c.offset x e) (hc : c.Spans x d)
    (hd : Closes d.rest) : Unstopped w.fileIndex c.offset x ∨ Stops w blanks "AssignmentBody" [] c := by
  by_contra hneither
  obtain ⟨hno, hstop⟩ := not_or.1 hneither
  simp only [Unstopped, not_forall] at hno
  obtain ⟨z, u, e', rfl, hz, hu, hattempt⟩ := hno
  obtain ⟨c₁, hcz, hcu⟩ := Cursor.spans_append.1 hc
  refine hstop (hz.assignment_stops hw (not_not.1 hattempt) hcz rfl ?_)
  rw [hcu.rest]
  rcases hu with rfl | hu
  · exact hd.settles.ends.token
  · exact (hu _).ends.token

theorem terminated_inv {body : String} (hw : w.rules = table) (ht : Terminates name body)
    (h : Yields w blanks name [] c v d) : ∃ v' c₁ c₂ g, Yields w blanks body [] c v' c₁ ∧ Gap g ∧ c₁.Spans g c₂ ∧
      Over c₁ c₂ ∧ c₂.Spans [';'] d := by
  obtain ⟨ctx, -, h⟩ := h
  obtain ⟨ctx₁, h, -⟩ := Derives.act_inv rfl (Derives.rule_inv (hw ▸ ht.place) h)
  obtain ⟨callee, hc, hv⟩ := ht.callee
  obtain ⟨ctx₂, c₁, c₂, hbody, ⟨g, hg, hs, hsolid⟩, hstop⟩ := seq_next_inv hw (.expect (.char ';')) h
  obtain ⟨-, hstop⟩ := Derives.char_inv (Derives.expect_inv hstop)
  obtain ⟨v', -, hy⟩ := yields_of_call (k := ⟨"Body", body, 0, some (idOf (calledName body))⟩) hw hc hv (by rw [ht.called])
    hbody
  exact ⟨v', c₁, c₂, g, hy, hg, hs, ⟨g, hg, hs, hsolid⟩, hstop⟩

/-! ## Statements -/

/-- What the rule for statements reads here is a text of the grammar. -/
def SoundStatement (w : World Value) (c : Cursor) : Prop :=
  ∀ v d, Yields w blanks "Statement" [] c v d → ∃ x s, Says w.fileIndex c.offset x s ∧ c.Spans x d ∧ Follows s d.rest

theorem statement_call_inv (hw : w.rules = table) (hp : rule.preCall? label = none) (hs : SoundStatement w c)
    (h : Derives w blanks (.pattern rule (.call (callAt label "Statement" 0)) ctx) c (.hit ctx₁ d)) :
    ∃ x s, Says w.fileIndex c.offset x s ∧ c.Spans x d ∧ Follows s d.rest := by
  obtain ⟨v, -, hy⟩ := yields_of_call hw table_choice rfl rfl h
  have hargs : rule.argumentsOf (callAt label "Statement" 0) ctx = [] := by simp only [Rule.argumentsOf, callAt, hp]
  rw [hargs] at hy
  exact hs v d hy

theorem advances_statement_call (hw : w.rules = table) (hp : rule.preCall? label = none) :
    Advances w rule (.call (callAt label "Statement" 0)) := by
  refine ⟨fun {ctx ctx' c d} h => ?_⟩
  obtain ⟨v, -, hy⟩ := yields_of_call hw table_choice rfl rfl h
  have hargs : rule.argumentsOf (callAt label "Statement" 0) ctx = [] := by simp only [Rule.argumentsOf, callAt, hp]
  rw [hargs] at hy
  exact advances_statement hw hy

/-- A place further on in the text. -/
theorem further (h : c.Spans x d) (hx : x ≠ []) : d.rest.length < c.rest.length := by
  rw [length_of_spans h]
  have := List.length_pos_of_ne_nil hx
  omega

section
variable (hw : w.rules = table) (ih : ∀ c', c'.rest.length < c.rest.length → SoundStatement w c')
include hw ih

theorem if_sound (h : Yields w blanks "If" [] c v d) :
    ∃ x s, Says w.fileIndex c.offset x s ∧ c.Spans x d ∧ Follows s d.rest := by
  obtain ⟨ctx, -, h⟩ := h
  obtain ⟨ctx₁, h, -⟩ := Derives.act_inv rfl (Derives.rule_inv (hw ▸ table_if) h)
  obtain ⟨ctx₂, c₅, c₆, e₁, hhead, hskip, hopt, hd⟩ := Derives.seq_inv h
  obtain ⟨ctx₃, c₃, c₄, hcond, ⟨g', hg', hs', -⟩, hthen⟩ := seq_next_inv hw (.expect (advances_statement_call hw rfl)) hhead
  obtain ⟨ctx₄, c₁, c₂, g, x, e, hkey, hg, hs, hx, hxspan⟩ := condition_inv hw rfl (fun h => (Derives.char_inv h).2) hcond
  obtain ⟨rfl, hkey, -⟩ := keyword_inv hkey
  have hbegin := hkey.trans hs
  have hbefore := (hbegin.trans hxspan).trans hs'
  obtain ⟨y, s, hy, hyspan, hfollows⟩ := statement_call_inv hw rfl (ih c₄ (further hbefore (by simp)))
    (Derives.expect_inv hthen)
  have hafter := afterGap_of_skip hw hskip
  obtain hhit | ⟨hmiss, rfl⟩ := Derives.opt_inv hopt
  · obtain ⟨ctx₅, c₇, c₈, helse, ⟨g₂, hg₂, hs₂, -⟩, hother⟩ := seq_next_inv hw
      (.expect (advances_statement_call hw rfl)) hhit
    obtain ⟨rfl, helse, hend⟩ := keyword_inv helse
    obtain ⟨g₁, hg₁, hs₁, -⟩ := gap_of_skip hw hskip (by rw [helse.rest]; exact List.cons_ne_nil _ _)
    obtain rfl : d = e₁ := by
      rcases hd with ⟨-, hd⟩ | ⟨rfl, -⟩
      · exact hd
      · exact absurd rfl ((Advances.keyword (by decide)).first.moves hhit)
    have hupto := (((hbefore.trans hyspan).trans hs₁).trans helse).trans hs₂
    obtain ⟨z, s', hz, hzspan, hfollows'⟩ := statement_call_inv hw rfl (ih c₈ (further hupto (by simp)))
      (Derives.expect_inv hother)
    -- An open statement would have taken the `else`.
    have hclosed : s.endsOpen = false := by
      rw [Bool.eq_false_iff]
      intro hopen
      obtain ⟨r, hr, hfirst⟩ := hfollows hopen
      obtain rfl := Option.some.inj (hr.symm.trans hafter)
      exact hfirst _ _ (by decide) helse.rest hend rfl
    have hend' : WordEnd (g₂ ++ z) := by
      intro ch hch
      refine hend ch ?_
      rw [hs₂.rest, hzspan.rest, ← List.append_assoc, List.head?_append_of_ne_nil _ (by simpa using fun _ => hz.nonempty)]
      exact hch
    exact ⟨_, _, .ifElse hg hbegin.offset hx hg' hbefore.offset hy hclosed hg₁ hg₂ hend' hupto.offset hz,
      hupto.trans hzspan, hfollows'⟩
  · obtain rfl : d = c₅ := by
      rcases hd with ⟨hne, -⟩ | ⟨-, hd⟩
      · exact absurd rfl hne
      · exact hd
    refine ⟨_, _, .ifThen hg hbegin.offset hx hg' hbefore.offset hy, hbefore.trans hyspan, fun _ => ⟨_, hafter, ?_⟩⟩
    rintro word u - hrest hend helse
    obtain rfl : word = "else".toList := by rw [← helse, String.toList_ofList]
    cases (seq_miss_inv hmiss).unique (keyword_hit (d := ⟨_, u⟩) ⟨hrest, rfl⟩ hend)

theorem while_sound (h : Yields w blanks "While" [] c v d) :
    ∃ x s, Says w.fileIndex c.offset x s ∧ c.Spans x d ∧ Follows s d.rest := by
  obtain ⟨ctx, -, h⟩ := h
  obtain ⟨ctx₁, h, -⟩ := Derives.act_inv rfl (Derives.rule_inv (hw ▸ table_while) h)
  obtain ⟨ctx₃, c₃, c₄, hcond, ⟨g', hg', hs', -⟩, hbody⟩ := seq_next_inv hw (.expect (advances_statement_call hw rfl)) h
  obtain ⟨ctx₄, c₁, c₂, g, x, e, hkey, hg, hs, hx, hxspan⟩ := condition_inv hw rfl (fun h => (Derives.char_inv h).2) hcond
  obtain ⟨rfl, hkey, -⟩ := keyword_inv hkey
  have hbegin := hkey.trans hs
  have hbefore := (hbegin.trans hxspan).trans hs'
  obtain ⟨y, s, hy, hyspan, hfollows⟩ := statement_call_inv hw rfl (ih c₄ (further hbefore (by simp)))
    (Derives.expect_inv hbody)
  exact ⟨_, _, .whileLoop hg hbegin.offset hx hg' hbefore.offset hy, hbefore.trans hyspan, hfollows⟩

theorem doWhile_sound (h : Yields w blanks "DoWhile" [] c v d) :
    ∃ x s, Says w.fileIndex c.offset x s ∧ c.Spans x d ∧ Follows s d.rest := by
  obtain ⟨ctx, -, h⟩ := h
  obtain ⟨ctx₁, h, -⟩ := Derives.act_inv rfl (Derives.rule_inv (hw ▸ table_doWhile) h)
  obtain ⟨c₇, c₈, g₃, h, hg₃, hs₃, hstop⟩ := seq_must_inv hw h
  obtain ⟨ctx₄, c₅, c₆, g₂, x, e, h, hg₂, hs₂, hx, hxspan⟩ := condition_inv hw rfl
    (fun h => (Derives.char_inv (Derives.expect_inv h)).2) h
  obtain ⟨ctx₅, c₃, c₄, h, ⟨g₁, hg₁, hs₁, -⟩, hkey'⟩ := seq_next_inv hw (.expect (.keyword (by decide))) h
  obtain ⟨ctx₆, c₁, c₂, hkey, ⟨g, hg, hs, -⟩, hbody⟩ := seq_next_inv hw (.expect (advances_statement_call hw rfl)) h
  obtain ⟨rfl, hkey, hend⟩ := keyword_inv hkey
  obtain ⟨rfl, hkey', -⟩ := keyword_inv (Derives.expect_inv hkey')
  have hbegin := hkey.trans hs
  obtain ⟨y, s, hy, hyspan, -⟩ := statement_call_inv hw rfl (ih c₂ (further hbegin (by simp))) (Derives.expect_inv hbody)
  have hend' : WordEnd (g ++ y) := by
    intro ch hch
    refine hend ch ?_
    rw [hs.rest, hyspan.rest, ← List.append_assoc, List.head?_append_of_ne_nil _ (by simpa using fun _ => hy.nonempty)]
    exact hch
  have hupto := (((hbegin.trans hyspan).trans hs₁).trans hkey').trans hs₂
  exact ⟨_, _, .doWhile hg hend' hbegin.offset hy hg₁ hg₂ hupto.offset hx hg₃,
    ((hupto.trans hxspan).trans hs₃).trans hstop, fun h => by cases h⟩

omit ih in
/-- What is read in the head of a loop. -/
theorem head_sound {n : String} (hn : n ∈ bodies) (h : Yields w blanks n [] c v d) (hd : Closes d.rest) :
    (∃ x s, BodyText w.fileIndex c.offset x s ∧ c.Spans x d ∧ (n ≠ "ConstructionBody" → s.isConstruction = false)) ∨
      ∃ x e, Reads w.fileIndex false 0 c.offset x e ∧ c.Spans x d ∧ Stops w blanks "AssignmentBody" [] c := by
  simp only [bodies, List.mem_cons, List.not_mem_nil, or_false] at hn
  rcases hn with rfl | rfl | rfl
  · obtain ⟨x, s, hx, hspan⟩ := construction_sound hw h
    exact .inl ⟨x, s, hx, hspan, fun hne => absurd rfl hne⟩
  · obtain ⟨x, s, hx, hspan, hs⟩ := assignment_sound hw h
    exact .inl ⟨x, s, hx, hspan, fun _ => hs⟩
  · obtain ⟨x, e, hreads, hspan⟩ := expressionBody_inv hw h
    obtain hu | hstop := unstopped_or_stops hw hreads hspan hd
    · exact .inl ⟨x, _, .expression hreads hu, hspan, fun _ => rfl⟩
    · exact .inr ⟨x, e, hreads, hspan, hstop⟩

omit ih in
theorem advances_chosen {names : List String} {k : Call} (hc : Chooses name names callee) (hn : names ⊆ bodies)
    (hv : callee.hasValue = true) (ht : k.target = some (idOf name)) (hk : ∀ ctx, rule.argumentsOf k ctx = []) :
    Advances w rule (.call k) := by
  refine ⟨fun {ctx ctx' c d} h => ?_⟩
  obtain ⟨v, -, hy⟩ := yields_of_call hw hc.place hv ht h
  rw [hk] at hy
  obtain ⟨n, hmem, hbody⟩ := hc.inv hw hy
  obtain ⟨callee', hc', hadvances⟩ := advances_bodies hw n (hn hmem)
  exact Advances.yields hw hc' hadvances hbody

omit ih in
theorem forInit_inv {d' d'' : Cursor}
    (h : Derives w blanks (.pattern (ofStatements forRule) (.call (callAt "Init" "ForInit" 0)) ctx) c (.hit ctx₁ d))
    (ho : Over d d') (hstop : d'.Spans [';'] d'') : ∃ x s, BodyText w.fileIndex c.offset x s ∧ c.Spans x d := by
  obtain ⟨v, -, hy⟩ := yields_of_call hw table_forInit rfl rfl h
  obtain ⟨n, hn, hbody⟩ := chooses_forInit.inv hw hy
  have hcloses := ho.closes (spans_head hstop) (.inr rfl)
  obtain ⟨x, s, hx, hspan, -⟩ | ⟨x, e, hreads, hspan, hstops⟩ := head_sound hw hn hbody hcloses
  · exact ⟨x, s, hx, hspan⟩
  · have hmiss := hreads.beginning.construction_miss hw hspan hcloses.breaks
    exact (hy.not_stops (chooses_forInit.stop hw ["ConstructionBody"] rfl (by simpa using hmiss) hstops)).elim

omit ih in
theorem forStep_inv {d' d'' : Cursor}
    (h : Derives w blanks (.pattern (ofStatements forRule) (.call (callAt "Step" "ForStep" 0)) ctx) c (.hit ctx₁ d))
    (ho : Over d d') (hclose : d'.Spans [')'] d'') : ∃ x s, StepText w.fileIndex c.offset x s ∧ c.Spans x d := by
  obtain ⟨v, -, hy⟩ := yields_of_call hw table_forStep rfl rfl h
  obtain ⟨n, hn, hbody⟩ := chooses_forStep.inv hw hy
  obtain ⟨x, s, hx, hspan, hs⟩ | ⟨-, -, -, -, hstops⟩ := head_sound hw (List.mem_cons_of_mem _ hn) hbody
    (ho.closes (spans_head hclose) (.inl rfl))
  · exact ⟨x, s, ⟨hx, hs ((by decide : ∀ n ∈ ["AssignmentBody", "ExpressionBody"], n ≠ "ConstructionBody") n hn)⟩, hspan⟩
  · exact (hy.not_stops (chooses_forStep.stop hw [] rfl (by simp) hstops)).elim

theorem for_sound (h : Yields w blanks "For" [] c v d) :
    ∃ x s, Says w.fileIndex c.offset x s ∧ c.Spans x d ∧ Follows s d.rest := by
  obtain ⟨ctx, -, h⟩ := h
  obtain ⟨ctx₁, h, -⟩ := Derives.act_inv rfl (Derives.rule_inv (hw ▸ table_for) h)
  obtain ⟨ctx₂, c₁₂, c₁₃, h, ⟨g₄, hg₄, hs₄, -⟩, hbody⟩ := seq_next_inv hw (.expect (advances_statement_call hw rfl)) h
  obtain ⟨ctx₃, c₉, c₁₀, c₁₁, p, step, g₃, h, hp, hpspan, hg₃, hs₃, hclose⟩ :=
    optional_inv hw (advances_chosen hw chooses_forStep (by decide) rfl rfl fun _ => rfl) (forStep_inv hw) h
  obtain ⟨ctx₄, c₆, c₇, c₈, q, condition, g₂, h, hq, hqspan, hg₂, hs₂, hstop'⟩ :=
    optional_inv hw (advances_expression hw rfl) (fun h _ _ => expression_call_inv hw rfl h) h
  obtain ⟨ctx₅, c₃, c₄, c₅, i, init, g₁, h, hi, hispan, hg₁, hs₁, hstop⟩ :=
    optional_inv hw (advances_chosen hw chooses_forInit (fun _ => id) rfl rfl fun _ => rfl) (forInit_inv hw) h
  obtain ⟨c₁, c₂, g, hkey, hg, hs, hopen⟩ := seq_must_inv hw h
  obtain ⟨-, hkey, -⟩ := keyword_inv hkey
  have hbegin := (hkey.trans hs).trans hopen
  have hafterInit := ((hbegin.trans hispan).trans hs₁).trans hstop
  have hafterCond := ((hafterInit.trans hqspan).trans hs₂).trans hstop'
  have hbefore := (((hafterCond.trans hpspan).trans hs₃).trans hclose).trans hs₄
  obtain ⟨y, s, hy, hyspan, hfollows⟩ := statement_call_inv hw rfl (ih c₁₃ (further hbefore (by simp)))
    (Derives.expect_inv hbody)
  exact ⟨_, _, .forLoop hg hbegin.offset hi hg₁ hafterInit.offset hq hg₂ hafterCond.offset hp hg₃ hg₄ hbefore.offset hy,
    hbefore.trans hyspan, hfollows⟩

omit ih

theorem return_sound (h : Yields w blanks "Return" [] c v d) : ∃ x s, Says w.fileIndex c.offset x s ∧ c.Spans x d ∧
    Follows s d.rest := by
  obtain ⟨ctx, -, h⟩ := h
  obtain ⟨ctx₁, h, -⟩ := Derives.act_inv rfl (Derives.rule_inv (hw ▸ table_return) h)
  obtain ⟨ctx₂, c₁, c₂, c₃, x, value, g, hkey, hx, hspan, hg, hs, hstop⟩ :=
    optional_inv hw (advances_expression hw rfl) (fun h _ _ => expression_call_inv hw rfl h) h
  obtain ⟨-, hkey, hend⟩ := keyword_inv hkey
  have hend' : WordEnd (x ++ g ++ [';']) := by
    intro ch hch
    refine hend ch ?_
    rw [hspan.rest, hs.rest, hstop.rest, ← List.append_assoc, ← List.append_assoc, List.head?_append_of_ne_nil _ (by simp)]
    exact hch
  exact ⟨_, _, .ret hkey.offset hx hend' hg, ((hkey.trans hspan).trans hs).trans hstop, fun h => by cases h⟩

theorem jump_sound {word : String} (h : Derives w blanks (.pattern rule (.seq (.keyword word) (.expect (.char ';'))) ctx) c
    (.hit ctx₁ d)) : ∃ g, Gap g ∧ c.Spans (word.toList ++ g ++ [';']) d := by
  obtain ⟨c₁, c₂, g, hkey, hg, hs, hstop⟩ := seq_must_inv hw h
  obtain ⟨-, hkey, -⟩ := keyword_inv hkey
  exact ⟨g, hg, (hkey.trans hs).trans hstop⟩

theorem break_sound (h : Yields w blanks "Break" [] c v d) : ∃ x s, Says w.fileIndex c.offset x s ∧ c.Spans x d ∧
    Follows s d.rest := by
  obtain ⟨ctx, -, h⟩ := h
  obtain ⟨ctx₁, h, -⟩ := Derives.act_inv rfl (Derives.rule_inv (hw ▸ table_break) h)
  obtain ⟨g, hg, hspan⟩ := jump_sound hw h
  exact ⟨_, _, .breakLoop hg, hspan, fun h => by cases h⟩

theorem continue_sound (h : Yields w blanks "Continue" [] c v d) : ∃ x s, Says w.fileIndex c.offset x s ∧ c.Spans x d ∧
    Follows s d.rest := by
  obtain ⟨ctx, -, h⟩ := h
  obtain ⟨ctx₁, h, -⟩ := Derives.act_inv rfl (Derives.rule_inv (hw ▸ table_continue) h)
  obtain ⟨g, hg, hspan⟩ := jump_sound hw h
  exact ⟨_, _, .continueLoop hg, hspan, fun h => by cases h⟩

theorem empty_sound (h : Yields w blanks "Empty" [] c v d) : ∃ x s, Says w.fileIndex c.offset x s ∧ c.Spans x d ∧
    Follows s d.rest := by
  obtain ⟨ctx, -, h⟩ := h
  obtain ⟨ctx₁, h, -⟩ := Derives.act_inv rfl (Derives.rule_inv (hw ▸ table_empty) h)
  exact ⟨_, _, .empty, (Derives.char_inv h).2, fun h => by cases h⟩

theorem statement_repeats : Repeats w (ofStatements compoundRule) (.call (callAt "Item" "Statement" 0)) where
  ending := by
    intro ctx c hnil
    have hmiss : Misses w blanks "Statement" [] c :=
      statement_miss hw (by rw [hnil]; rintro _ ⟨⟩) (by rw [hnil]; decide) (by rw [hnil]; decide)
    exact hmiss.call rfl rfl rfl
  moving := fun _ _ _ _ h => (advances_statement_call hw rfl).moves h

theorem compound_sound (ih : ∀ c', c'.rest.length < c.rest.length → SoundStatement w c')
    (h : Yields w blanks "Compound" [] c v d) :
    ∃ x items span, Says w.fileIndex c.offset x (.compound items span) ∧ c.Spans x d := by
  obtain ⟨ctx, -, h⟩ := h
  obtain ⟨ctx₁, c₂, c₃, h, ⟨g, hg, hs, -⟩, hclose⟩ := seq_next_inv hw (.expect (.act rfl (.char '\x7d')))
    (Derives.rule_inv (hw ▸ table_compound) h)
  obtain ⟨ctx₂, c₁, hopen, hrounds⟩ := seq_many_inv (statement_repeats hw) h
  have hopen := (Derives.char_inv (Derives.act_inv rfl hopen).choose_spec.1).2
  have hclose := (Derives.char_inv (Derives.act_inv rfl (Derives.expect_inv hclose)).choose_spec.1).2
  obtain ⟨as, hp, has, hspan⟩ : ∃ as, Element.Placed Gap c₁.offset as ∧
      (∀ a ∈ as, Says w.fileIndex a.start a.text a.value) ∧ c₁.Spans (Element.written as) c₂ := by
    refine Derives.rounds_rec (M := fun first _ c₁ => first = false → c₁.rest.length < c.rest.length →
      ∃ as, Element.Placed Gap c₁.offset as ∧ (∀ a ∈ as, Says w.fileIndex a.start a.text a.value) ∧
        c₁.Spans (Element.written as) c₂) hrounds ?_ ?_ ?_ rfl (further hopen (by simp))
    · exact fun _ _ _ _ => ⟨[], trivial, fun _ h => absurd h List.not_mem_nil, .rfl⟩
    · exact fun _ _ _ _ _ _ _ _ => ⟨[], trivial, fun _ h => absurd h List.not_mem_nil, .rfl⟩
    · intro first ctx₁ ctx₂ c₄ c₅ c₆ _ hskip hitem hmore hfirst hlen
      subst hfirst
      obtain ⟨y, hy⟩ := hskip.spans
      have hlen' := length_of_spans hy
      obtain ⟨x, s, hx, hspan, -⟩ := statement_call_inv hw rfl (ih c₅ (by omega)) hitem
      obtain ⟨ch, z, rfl, -⟩ := hx.head
      obtain ⟨g', hg', hs', -⟩ := gap_of_skip hw hskip (by rw [hspan.rest]; exact List.cons_ne_nil _ _)
      obtain ⟨as, hp, has, hwritten⟩ := hmore rfl (by have := further hspan (List.cons_ne_nil _ _); omega)
      refine ⟨⟨g', c₅.offset, ch :: z, s⟩ :: as, ⟨hg', hs'.offset, ?_⟩, ?_, (hs'.trans hspan).trans hwritten⟩
      · rw [← hspan.offset]
        exact hp
      · exact List.forall_mem_cons.2 ⟨hx, has⟩
  exact ⟨_, _, _, .compound hopen.offset hp has hg, ((hopen.trans hspan).trans hs).trans hclose⟩

theorem terminated_sound {body : String} (ht : Terminates name body) (hbody : body ∈ bodies)
    (hy : Yields w blanks "Statement" [] c v d) (h : Yields w blanks name [] c v d) :
    ∃ x s, Says w.fileIndex c.offset x s ∧ c.Spans x d ∧ Follows s d.rest := by
  obtain ⟨v', c₁, c₂, g, h, hg, hs, hover, hstop⟩ := terminated_inv hw ht h
  have hcloses := hover.closes (spans_head hstop) (.inr rfl)
  obtain ⟨x, s, hx, hspan, -⟩ | ⟨x, e, hreads, hspan, hstops⟩ := head_sound hw hbody h hcloses
  · refine ⟨_, _, .body hx hg, (hspan.trans hs).trans hstop, fun h => ?_⟩
    cases hx <;> cases h
  · exact (hy.not_stops (hreads.statement_stops hw hspan hcloses.breaks hstops)).elim

end

/-- Everything that is read as a statement is a text of the grammar. -/
theorem sound_statement (hw : w.rules = table) (c : Cursor) : SoundStatement w c := by
  generalize hn : c.rest.length = n
  induction n using Nat.strongRecOn generalizing c with
  | ind n ihn =>
    subst hn
    have ih : ∀ c', c'.rest.length < c.rest.length → SoundStatement w c' := fun c' hc' => ihn _ hc' c' rfl
    intro v d hy
    obtain ⟨n, hn, h⟩ := chooses_statement.inv hw hy
    simp only [alternatives, List.mem_cons, List.not_mem_nil, or_false] at hn
    rcases hn with rfl | rfl | rfl | rfl | rfl | rfl | rfl | rfl | rfl | rfl | rfl | rfl
    · obtain ⟨x, items, span, hx, hspan⟩ := compound_sound hw ih h
      exact ⟨x, _, hx, hspan, fun hopen => by cases hopen⟩
    · exact if_sound hw ih h
    · exact while_sound hw ih h
    · exact doWhile_sound hw ih h
    · exact for_sound hw ih h
    · exact return_sound hw h
    · exact break_sound hw h
    · exact continue_sound hw h
    · exact terminated_sound hw terminates_construction (by decide) hy h
    · exact terminated_sound hw terminates_assignment (by decide) hy h
    · exact terminated_sound hw terminates_expression (by decide) hy h
    · exact empty_sound hw h

theorem statement_inv (hw : w.rules = table) (h : Yields w blanks "Statement" [] c v d) :
    ∃ x s, Says w.fileIndex c.offset x s ∧ c.Spans x d ∧ v = .statement s := by
  obtain ⟨x, s, hx, hspan, hfollows⟩ := sound_statement hw c v d h
  exact ⟨x, s, hx, hspan, (h.unique (hx.part hw hspan rfl hfollows).yields).1⟩

end

/-- What a source is if it parses as a statement. -/
theorem parseStatement_eq_ok_iff {source file : String} {fileIndex : Nat} {s : Statement} :
    parseStatement source fileIndex file = .ok s ↔ ∃ lead x trail, source.toList = lead ++ x ++ trail ∧ Gap lead ∧
      Says fileIndex (Text.byteLength lead) x s ∧ afterGap trail = some [] := by
  refine parseFile_eq_ok_iff.trans ⟨?_, ?_⟩
  · rintro ⟨v, hv, c, ctx, d, last, hskip, hrule, hvalue, hskip', hlast⟩
    obtain ⟨x, s', hx, hspan, rfl⟩ := statement_inv (w := world fileIndex file) rfl ⟨ctx, hvalue, hrule⟩
    obtain rfl : s' = s := Option.some.inj hv
    obtain ⟨ch, y, rfl, -⟩ := hx.head
    obtain ⟨g, hg, hgap, -⟩ := gap_of_skip rfl hskip (by rw [hspan.rest]; exact List.cons_ne_nil _ _)
    refine ⟨g, ch :: y, d.rest, (hgap.trans hspan).rest, hg, ?_, ?_⟩
    · have hoffset : c.offset = Text.byteLength g := by rw [hgap.offset]; exact Nat.zero_add _
      rw [← hoffset]
      exact hx
    · rw [afterGap_of_skip rfl hskip', hlast]
  · rintro ⟨lead, x, trail, hsource, hlead, hx, htrail⟩
    have hfollows : Follows s trail := fun _ => ⟨[], htrail, firstWord_of_noWord (by rintro _ ⟨⟩)⟩
    have hpart := hx.part (w := world fileIndex file) rfl (exists_cursor (Text.byteLength lead) x trail) rfl hfollows
    refine ⟨.statement s, rfl, ?_⟩
    rw [hsource, List.append_assoc]
    exact accepts_of_yields hlead rfl (hx.solid trail) hpart.yields htrail

end PegFront.Cminor
