import PegFront.Proofs.Cminor.Completeness

/-!
# What is read is a text of the grammar

The converse of `Reads.read`: if the rule of a level hits, the text it takes up is an expression of that level. The
rules are taken apart into the texts they are made of; what the actions make of these is known from the other
direction, since a job ends in one way only.
-/

namespace PegFront.Cminor

open Expressions

section
variable {w : World Value} {c c₀ c₁ c₂ d : Cursor} {rule : Rule Value} {a b : Pattern} {ctx ctx₁ ctx₂ : Context Value}
  {lv : Bool} {k o : Nat} {x : List Char} {e : Expr} {v : Value}

/-! ## Taking sequences apart -/

theorem length_of_spans (h : c.Spans x d) : c.rest.length = x.length + d.rest.length := by
  rw [h.rest, List.length_append]

theorem gap_of_skip (hw : w.rules = table) (hs : Derives w blanks (.skip ctx) c (.hit ctx₁ d)) (hd : d.rest ≠ []) :
    ∃ g, Gap g ∧ c.Spans g d ∧ Solid d.rest := by
  obtain ⟨g, hg, hgap, hsolid⟩ := gap_of_afterGap (afterGap_of_skip hw hs) hd
  obtain ⟨x, hx⟩ := hs.spans
  obtain rfl : x = g := List.append_cancel_right (hx.rest.symm.trans hg)
  exact ⟨x, hgap, hx, hsolid⟩

/-- A sequence whose second part takes up some text. -/
theorem seq_over_inv (hw : w.rules = table)
    (h : Derives w blanks (.pattern rule (.seq a b) ctx) c (.hit ctx₂ d))
    (hb : ∀ ctx₁ c₁ c₂ x e, Derives w blanks (.pattern rule a ctx) c (.hit ctx₁ c₁) → c₁.Spans x c₂ →
      Derives w blanks (.pattern rule b ctx₁) c₂ (.hit ctx₂ e) → e.offset ≠ c₂.offset) :
    ∃ ctx₁ c₁ c₂ g, Derives w blanks (.pattern rule a ctx) c (.hit ctx₁ c₁) ∧ Gap g ∧ c₁.Spans g c₂ ∧ Solid c₂.rest ∧
      Derives w blanks (.pattern rule b ctx₁) c₂ (.hit ctx₂ d) := by
  obtain ⟨ctx₁, c₁, c₂, e, ha, hs, hb', hd⟩ := Derives.seq_inv h
  obtain ⟨y, hy⟩ := hs.spans
  have hmove := hb ctx₁ c₁ c₂ y e ha hy hb'
  obtain rfl : d = e := by
    rcases hd with ⟨-, hd⟩ | ⟨rfl, -⟩
    · exact hd
    · exact absurd rfl hmove
  have hrest : c₂.rest ≠ [] := by
    intro hnil
    obtain ⟨x, hx⟩ := hb'.spans
    obtain rfl : x = [] := by
      have := hx.rest
      rw [hnil] at this
      exact (List.append_eq_nil_iff.1 this.symm).1
    exact hmove (by rw [hx.offset]; rfl)
  obtain ⟨g, hg, hspan, hsolid⟩ := gap_of_skip hw hs hrest
  exact ⟨ctx₁, c₁, c₂, g, ha, hg, hspan, hsolid, hb'⟩

/-- A sequence that ends with a char that must be there. -/
theorem seq_must_inv (hw : w.rules = table) {ch : Char}
    (h : Derives w blanks (.pattern rule (.seq a (.expect (.char ch))) ctx) c (.hit ctx₂ d)) :
    ∃ c₁ c₂ g, Derives w blanks (.pattern rule a ctx) c (.hit ctx₂ c₁) ∧ Gap g ∧ c₁.Spans g c₂ ∧ c₂.Spans [ch] d := by
  obtain ⟨ctx₁, c₁, c₂, g, ha, hg, hs, -, hb⟩ := seq_over_inv hw h fun ctx₁ c₁ c₂ x e _ _ hb =>
    Spans.moves (Derives.char_inv (Derives.expect_inv hb)).2 (by simp)
  obtain ⟨rfl, hch⟩ := Derives.char_inv (Derives.expect_inv hb)
  exact ⟨c₁, c₂, g, ha, hg, hs, hch⟩

theorem seq_miss_inv {r : Context Value} (h : Derives w blanks (.pattern rule (.seq a (.expect b)) ctx) c (.miss r)) :
    Derives w blanks (.pattern rule a ctx) c (.miss r) := by
  cases h with
  | seq_first ha => exact ha
  | seq_second _ _ hb => cases hb

theorem act_miss_inv {name : String} {p : Pattern} {r : Context Value}
    (h : Derives w blanks (.pattern rule (.act name p) ctx) c (.miss r)) :
    Derives w blanks (.pattern rule p ctx) c (.miss r) ∨
      ∃ ctx₁ d, Derives w blanks (.pattern rule p ctx) c (.hit ctx₁ d) := by
  cases h with
  | act_miss h => exact .inl h
  | act_reject h => exact .inr ⟨_, _, h⟩

theorem spans_of_head {ch : Char} (h : c.rest.head? = some ch) : ∃ d, c.Spans [ch] d := by
  obtain ⟨t, ht⟩ := List.head?_eq_some_iff.1 h
  exact Cursor.exists_spans ⟨t, ht.symm⟩

/-- A sequence that begins with a char that is there does not miss, if its other parts must follow. -/
theorem char_not_missing {ch : Char} {r : Context Value} (hc : c.rest.head? = some ch) :
    ¬ Derives w blanks (.pattern rule (.seq (.char ch) (.expect b)) ctx) c (.miss r) := by
  intro h
  obtain ⟨d, hd⟩ := spans_of_head hc
  cases (seq_miss_inv h).unique (.char_of_spans hd)

/-! ## Levels -/

/-- What the rules for expressions read here is a text of the grammar. -/
def Sound (w : World Value) (c : Cursor) : Prop :=
  ∀ lv k v d, k ≤ 9 → Yields w blanks (levelName k) [.mode ⟨lv⟩] c v d →
    ∃ x e, Reads w.fileIndex lv k c.offset x e ∧ c.Spans x d ∧ v = .expr e

theorem yields_of_expression (hw : w.rules = table) (h : Yields w blanks "Expression" [.mode ⟨lv⟩] c v d) :
    Yields w blanks (levelName 0) [.mode ⟨lv⟩] c v d := by
  obtain ⟨ctx, hv, h⟩ := h
  have hdef := Derives.rule_inv (hw ▸ table_expression) h
  obtain ⟨v', hctx, hy⟩ := yields_of_call hw (table_binary (k := 0) (by decide)) rfl rfl hdef
  cases hctx
  cases hv
  exact hy

theorem Sound.expression (hw : w.rules = table) (hs : Sound w c)
    (h : Yields w blanks "Expression" [.mode ⟨lv⟩] c v d) :
    ∃ x e, Reads w.fileIndex lv 0 c.offset x e ∧ c.Spans x d ∧ v = .expr e :=
  hs lv 0 v d (Nat.zero_le 9) (yields_of_expression hw h)

theorem shorter {ch : Char} {y : List Char} (h : c.Spans (ch :: y) c₁) (h' : c₁.Spans x c₂) :
    c₂.rest.length < c.rest.length := by
  rw [length_of_spans h, length_of_spans h', List.length_cons]
  omega

theorem primary_sound (hw : w.rules = table) (ih : ∀ c', c'.rest.length < c.rest.length → Sound w c')
    (h : Yields w blanks "Primary" [.mode ⟨lv⟩] c v d) :
    ∃ x e, Reads w.fileIndex lv 9 c.offset x e ∧ c.Spans x d ∧ v = .expr e := by
  obtain ⟨ctx, hv, h⟩ := h
  obtain h | ⟨ctx₃, -, hname⟩ := Derives.alt_inv (Derives.rule_inv (hw ▸ table_primary) h)
  · obtain h | ⟨ctx₂, -, hthis⟩ := Derives.alt_inv h
    · obtain hparen | ⟨ctx₁, hmiss, hliteral⟩ := Derives.alt_inv h
      · obtain ⟨c₃, c₄, g', hinner, hg', hs', hclose⟩ := seq_must_inv hw hparen
        have hcall : ∀ ctx₁ c₁ c₂ x e, Derives w blanks (.pattern primaryLevel (.char '(')
            ⟨[("ctx", .mode ⟨lv⟩)], none, c.offset⟩) c (.hit ctx₁ c₁) → c₁.Spans x c₂ →
            Derives w blanks (.pattern primaryLevel (.call (callAt "Paren" "Expression" 1)) ctx₁) c₂ (.hit ctx e) →
            c.Spans ['('] c₁ ∧ ∃ y e', Reads w.fileIndex lv 0 c₂.offset y e' ∧ c₂.Spans y e ∧
              ctx.value = some (.expr e') := by
          intro ctx₁ c₁ c₂ x e ha hx hb
          obtain ⟨rfl, hopen⟩ := Derives.char_inv ha
          obtain ⟨v', rfl, hy⟩ := yields_of_call hw table_expression rfl rfl hb
          rw [argumentsOf_forward rfl rfl] at hy
          obtain ⟨y, e', hreads, hspan, rfl⟩ := (ih c₂ (shorter hopen hx)).expression hw hy
          exact ⟨hopen, y, e', hreads, hspan, rfl⟩
        obtain ⟨ctx₁, c₁, c₂, g, ha, hg, hs, -, hb⟩ := seq_over_inv hw hinner fun ctx₁ c₁ c₂ x e ha hx hb => by
          obtain ⟨-, y, e', hreads, hspan, -⟩ := hcall ctx₁ c₁ c₂ x e ha hx hb
          exact Spans.moves hspan hreads.nonempty
        obtain ⟨hopen, y, e', hreads, hspan, hvalue⟩ := hcall ctx₁ c₁ c₂ g c₃ ha hs hb
        refine ⟨_, e', .paren hg (hopen.trans hs).offset hreads hg', (((hopen.trans hs).trans hspan).trans hs').trans hclose,
          Option.some.inj (hv.symm.trans hvalue)⟩
      · obtain ⟨ctx₂, hcall, hact⟩ := Derives.act_true_inv Expressions.literal rfl hliteral
        obtain ⟨v', rfl, hy⟩ := yields_of_call hw table_literal rfl rfl hcall
        obtain ⟨x, l, hx, hspan, rfl⟩ := literal_inv hw hy
        -- No literal begins with a parenthesis, so nothing was bound before.
        have hparen : c.rest.head? ≠ some '(' := by
          obtain ⟨ch, y, rfl, hch⟩ := head_of_literalText hx
          rw [hspan.rest]
          rintro ⟨⟩
          revert hch
          decide
        cases hmiss.unique (paren_miss hparen)
        cases lv with
        | true => cases hact
        | false =>
          cases hact
          cases hv
          exact ⟨x, _, .literal hx, hspan, by rw [spanAt_eq hspan]; rfl⟩
    · obtain ⟨ctx₃, hkey, hact⟩ := Derives.act_inv rfl hthis
      obtain ⟨rfl, hspan, -⟩ := keyword_inv hkey
      cases hact
      cases hv
      exact ⟨_, _, .this, hspan, by rw [spanAt_eq hspan]; rfl⟩
  · obtain ⟨ctx₄, hid, hact⟩ := Derives.act_true_inv Expressions.name rfl hname
    obtain ⟨v', rfl, hy⟩ := yields_of_call hw table_name rfl rfl hid
    obtain ⟨x, hx, hspan, -, rfl⟩ := name_inv hw hy
    have hact : Expressions.name (ctx₃.set "Identifier" (.identifier ⟨String.ofList x, w.span c d⟩)) (w.matched c d) =
        (true, ctx) := hact
    rw [Expressions.name, takeAs] at hact
    simp only [Context.take, get?_set_self, Option.bind_some, Value.identifier?] at hact
    cases hact
    cases hv
    exact ⟨x, _, .name hx, hspan, by rw [spanAt_eq hspan]; rfl⟩

/-! ## Suffixes -/

theorem member_pieces (hw : w.rules = table)
    (h : Derives w blanks (.pattern postfixLevel (.seq (.char '.') (.expect (.call (callAt "Identifier" "Identifier" 0))))
      ctx) c (.hit ctx₁ d)) :
    ∃ c₁ c₂ g y, c.Spans ['.'] c₁ ∧ Gap g ∧ c₁.Spans g c₂ ∧ isName y = true ∧ c₂.Spans y d ∧ WordEnd d.rest := by
  have hname : ∀ {ctx ctx₁ : Context Value} {c d : Cursor}, Derives w blanks (.pattern postfixLevel
      (.expect (.call (callAt "Identifier" "Identifier" 0))) ctx) c (.hit ctx₁ d) →
      ∃ y, isName y = true ∧ c.Spans y d ∧ WordEnd d.rest := by
    intro ctx ctx₁ c d h
    obtain ⟨v, -, hy⟩ := yields_of_call hw table_name rfl rfl (Derives.expect_inv h)
    obtain ⟨y, hy, hspan, hend, -⟩ := name_inv hw hy
    exact ⟨y, hy, hspan, hend⟩
  obtain ⟨ctx₂, c₁, c₂, g, ha, hg, hs, -, hb⟩ := seq_over_inv hw h fun ctx₁ c₁ c₂ x e _ _ hb => by
    obtain ⟨y, hy, hspan, -⟩ := hname hb
    obtain ⟨ch, z, rfl, -⟩ := head_of_isName hy
    exact Spans.moves hspan (by simp)
  obtain ⟨-, hdot⟩ := Derives.char_inv ha
  obtain ⟨y, hy, hspan, hend⟩ := hname hb
  exact ⟨c₁, c₂, g, y, hdot, hg, hs, hy, hspan, hend⟩

theorem index_pieces (hw : w.rules = table) (ih : ∀ c', c'.rest.length < c.rest.length → Sound w c')
    (h : Derives w blanks (.pattern postfixLevel (.seq (.seq (.char '[') (.expect (.call (callAt "Index" "Expression" 1))))
      (.expect (.char ']'))) ctx) c (.hit ctx₁ d)) :
    ∃ c₁ c₂ c₃ c₄ g y g' i, c.Spans ['['] c₁ ∧ Gap g ∧ c₁.Spans g c₂ ∧
      Yields w blanks "Expression" [.mode {}] c₂ (.expr i) c₃ ∧ Reads w.fileIndex false 0 c₂.offset y i ∧ c₂.Spans y c₃ ∧
      Gap g' ∧ c₃.Spans g' c₄ ∧ c₄.Spans [']'] d := by
  obtain ⟨c₃, c₄, g', hinner, hg', hs', hclose⟩ := seq_must_inv hw h
  have hindex : ∀ {ctx' : Context Value} {c₁ c₂ e : Cursor} {x : List Char}, c.Spans ['['] c₁ → c₁.Spans x c₂ →
      Derives w blanks (.pattern postfixLevel (.expect (.call (callAt "Index" "Expression" 1))) ctx') c₂ (.hit ctx₁ e) →
      ∃ y i, Yields w blanks "Expression" [.mode {}] c₂ (.expr i) e ∧ Reads w.fileIndex false 0 c₂.offset y i ∧
        c₂.Spans y e := by
    intro ctx' c₁ c₂ e x hopen hx hb
    obtain ⟨v, -, hy⟩ := yields_of_call hw table_expression rfl rfl (Derives.expect_inv hb)
    obtain ⟨y, i, hreads, hspan, rfl⟩ := (ih c₂ (shorter hopen hx)).expression hw hy
    exact ⟨y, i, hy, hreads, hspan⟩
  obtain ⟨ctx₂, c₁, c₂, g, ha, hg, hs, -, hb⟩ := seq_over_inv hw hinner fun ctx₁ c₁ c₂ x e ha hx hb => by
    obtain ⟨y, i, -, hreads, hspan⟩ := hindex (Derives.char_inv ha).2 hx hb
    exact Spans.moves hspan hreads.nonempty
  obtain ⟨-, hopen⟩ := Derives.char_inv ha
  obtain ⟨y, i, hy, hreads, hspan⟩ := hindex hopen hs hb
  exact ⟨c₁, c₂, c₃, c₄, g, y, g', i, hopen, hg, hs, hy, hreads, hspan, hg', hs', hclose⟩

theorem argument_pieces (hw : w.rules = table) (hs : Sound w c)
    (h : Derives w blanks (.pattern postfixLevel argument ctx) c (.hit ctx₁ d)) :
    ∃ y a, Yields w blanks "Expression" [.mode {}] c (.expr a) d ∧ Reads w.fileIndex false 0 c.offset y a ∧ c.Spans y d := by
  obtain ⟨v, -, hy⟩ := yields_of_call hw table_expression rfl rfl h
  obtain ⟨y, a, hreads, hspan, rfl⟩ := hs.expression hw hy
  exact ⟨y, a, hy, hreads, hspan⟩

theorem arguments_pieces (hw : w.rules = table) (ih : ∀ c', c'.rest.length < c₀.rest.length → Sound w c')
    (hc : c.rest.length < c₀.rest.length)
    (h : Derives w blanks (.items postfixLevel argument (.char ',') ctx) c (.hit ctx₁ d)) :
    ∃ as, c.Spans (Argument.written as) d ∧ Argument.Placed c.offset as ∧
      ∀ b ∈ as, Reads w.fileIndex false 0 b.start b.text b.value := by
  refine Derives.items_rec (M := fun _ c => c.rest.length < c₀.rest.length → ∃ as, c.Spans (Argument.written as) d ∧
    Argument.Placed c.offset as ∧ ∀ b ∈ as, Reads w.fileIndex false 0 b.start b.text b.value) h ?_ ?_ hc
  · exact fun _ _ => ⟨[], .rfl, trivial, nofun⟩
  · intro ctx ctx₁ ctx₂ c c₁ c₂ c₃ c₄ hs hcomma hs' hitem hrest hc
    obtain ⟨-, hcomma⟩ := Derives.char_inv hcomma
    obtain ⟨g, hg, hspan, -⟩ := gap_of_skip hw hs (by rw [hcomma.rest]; exact nofun)
    obtain ⟨y, hy⟩ := hs'.spans
    have hlt := shorter hcomma hy
    have hle := length_of_spans hspan
    obtain ⟨z, a, -, hreads, hz⟩ := argument_pieces hw (ih c₃ (by omega)) hitem
    obtain ⟨ch, t, rfl, -⟩ := hreads.head
    obtain ⟨g', hg', hspan', -⟩ := gap_of_skip hw hs' (by rw [hz.rest]; exact nofun)
    have hlt' := length_of_spans hz
    obtain ⟨as, has, hplaced, hall⟩ := hrest (by omega)
    have hwhole := (hspan.trans hcomma).trans hspan'
    refine ⟨⟨g, g', c₃.offset, ch :: t, a⟩ :: as, ?_, ⟨hg, hg', hwhole.offset, ?_⟩, ?_⟩
    · exact (hwhole.trans hz).trans has
    · rw [← hz.offset]
      exact hplaced
    · exact List.forall_mem_cons.2 ⟨hreads, hall⟩

/-- A call without arguments, or with some. -/
theorem invoke_pieces (hw : w.rules = table) (ih : ∀ c', c'.rest.length < c.rest.length → Sound w c')
    (h : Derives w blanks (.pattern postfixLevel (.seq (.seq (.act "Open" (.char '(')) (.opt (.list argument (.char ','))))
      (.expect (.char ')'))) ctx) c (.hit ctx₁ d)) :
    ∃ c₁ c₂ g, c.Spans ['('] c₁ ∧ Gap g ∧ c₁.Spans g c₂ ∧ (c₂.Spans [')'] d ∨
      ∃ c₃ c₄ c₅ y a as g', Yields w blanks "Expression" [.mode {}] c₂ (.expr a) c₃ ∧
        Reads w.fileIndex false 0 c₂.offset y a ∧ c₂.Spans y c₃ ∧ c₃.Spans (Argument.written as) c₄ ∧
        Argument.Placed c₃.offset as ∧ (∀ b ∈ as, Reads w.fileIndex false 0 b.start b.text b.value) ∧ Gap g' ∧
        c₄.Spans g' c₅ ∧ c₅.Spans [')'] d) := by
  obtain ⟨c₄, c₅, g', hinner, hg', hs', hclose⟩ := seq_must_inv hw h
  obtain ⟨ctx₂, c₁, c₂, e, ha, hs, hb, hd⟩ := Derives.seq_inv hinner
  obtain ⟨ctx₃, hopen, -⟩ := Derives.act_inv rfl ha
  obtain ⟨-, hopen⟩ := Derives.char_inv hopen
  obtain hlist | ⟨-, rfl⟩ := Derives.opt_inv hb
  · obtain ⟨x, hx⟩ := hs.spans
    cases hlist with
    | list_hit hfirst hitems =>
      obtain ⟨y, a, hy, hreads, hspan⟩ := argument_pieces hw (ih c₂ (shorter hopen hx)) hfirst
      obtain ⟨ch, t, rfl, -⟩ := hreads.head
      obtain ⟨g, hg, hgap, -⟩ := gap_of_skip hw hs (by rw [hspan.rest]; exact nofun)
      have hlt := shorter hopen hx
      have hlt' := length_of_spans hspan
      obtain ⟨as, has, hplaced, hall⟩ := arguments_pieces hw ih (by omega) hitems
      have hmove := Spans.moves hspan (by simp)
      obtain rfl : c₄ = e := by
        rcases hd with ⟨-, hd⟩ | ⟨rfl, -⟩
        · exact hd
        · have := hspan.offset
          have := has.offset
          omega
      exact ⟨c₁, c₂, g, hopen, hg, hgap, .inr ⟨_, _, _, _, a, as, g', hy, hreads, hspan, has, hplaced, hall, hg', hs',
        hclose⟩⟩
  · obtain rfl : c₄ = c₁ := by
      rcases hd with ⟨hne, -⟩ | ⟨-, hd⟩
      · exact absurd rfl hne
      · exact hd
    exact ⟨c₄, c₅, g', hopen, hg', hs', .inl hclose⟩

/-- The suffixes hit between two places, and make an expression of the text from `c₀` on. -/
def Suffixed (w : World Value) (lv : Bool) (c₀ : Cursor) (ctx : Context Value) (c d : Cursor) : Prop :=
  ∃ ctx' x e, Carries ctx' lv c₀.offset e ∧ Reads w.fileIndex lv 8 c₀.offset x e ∧ c₀.Spans x d ∧
    Derives w blanks (.pattern postfixLevel suffixes ctx) c (.hit ctx' d)

section
variable {ctx' : Context Value} {c' : Cursor} {g : List Char} (hw : w.rules = table)
  (ih : ∀ c', c'.rest.length < c.rest.length → Sound w c') (hctx : Carries ctx lv c₀.offset e)
  (h₀ : Reads w.fileIndex lv 8 c₀.offset x e) (hx : c₀.Spans x c') (hg : Gap g) (hs : c'.Spans g c)
include hw hctx h₀ hx hg hs

theorem suffixed_member (h : Derives w blanks (.pattern postfixLevel
    (.seq (.char '.') (.expect (.call (callAt "Identifier" "Identifier" 0)))) ctx') c (.hit ctx₁ d)) :
    Suffixed w lv c₀ ctx c d := by
  obtain ⟨c₁, c₂, g', y, hdot, hg', hs', hy, hspan, hend⟩ := member_pieces hw h
  obtain ⟨ctx₂, hctx₂, hhit⟩ := member_step hw hdot hg' hs' hy hspan hend hctx
  have hwhole := ((hx.trans hs).trans hdot).trans hs'
  have hreads := Reads.member h₀ hg hg' hy hwhole.offset
  rw [spanAt_eq hspan, spanAt_eq (hwhole.trans hspan)] at hreads
  exact ⟨ctx₂, _, _, hctx₂, hreads, hwhole.trans hspan, hhit⟩

include ih

theorem suffixed_invoke (h : Derives w blanks (.pattern postfixLevel
    (.seq (.seq (.act "Open" (.char '(')) (.opt (.list argument (.char ',')))) (.expect (.char ')'))) ctx') c
    (.hit ctx₁ d)) : Suffixed w lv c₀ ctx c d := by
  obtain ⟨c₁, c₂, g', hopen, hg', hs', hclose | ⟨c₃, c₄, c₅, y, a, as, g'', hy, hreads, hspan, has, hplaced, hall,
    hg'', hs'', hclose⟩⟩ := invoke_pieces hw ih h
  · have hmiss : Misses w blanks "Expression" [.mode {}] c₂ := by
      refine expression_miss_head hw ?_
      rw [hclose.rest]
      rintro _ ⟨⟩
      decide
    obtain ⟨ctx₂, hctx₂, hhit⟩ := call_step hw hopen hg' hs' hclose hmiss hctx
    have hwhole := (((hx.trans hs).trans hopen).trans hs').trans hclose
    have hcall := Reads.call h₀ hg hg'
    rw [spanAt_eq hwhole] at hcall
    exact ⟨ctx₂, _, _, hctx₂, hcall, hwhole, hhit⟩
  · have hyields : ∀ b ∈ as, ∀ c d : Cursor, c.Spans b.text d → c.offset = b.start → Ends 0 d.rest →
        Yields w blanks "Expression" [.mode {}] c (.expr b.value) d :=
      fun b hb c d hc ho hd => expression_yields hw (((hall b hb).read hw hc ho).level hd)
    obtain ⟨ctx₂, hctx₂, hhit⟩ := invoke_step hw hopen hg' hs' (by rw [hspan.rest]; exact hreads.solid _) hy
      (Spans.moves hspan hreads.nonempty) has hplaced hyields (fun b hb t => (hall b hb).solid t) hg'' hs'' hclose hctx
    have hbefore := ((hx.trans hs).trans hopen).trans hs'
    have hwhole := (((hbefore.trans hspan).trans has).trans hs'').trans hclose
    have hinvoke := Reads.invoke h₀ hg hg' hbefore.offset hreads (by rw [← hspan.offset]; exact hplaced) hall hg''
    rw [spanAt_eq hwhole] at hinvoke
    exact ⟨ctx₂, _, _, hctx₂, hinvoke, hwhole, hhit⟩

theorem suffixed_index (h : Derives w blanks (.pattern postfixLevel
    (.seq (.seq (.char '[') (.expect (.call (callAt "Index" "Expression" 1)))) (.expect (.char ']'))) ctx') c
    (.hit ctx₁ d)) : Suffixed w lv c₀ ctx c d := by
  obtain ⟨c₁, c₂, c₃, c₄, g', y, g'', i, hopen, hg', hs', hy, hreads, hspan, hg'', hs'', hclose⟩ := index_pieces hw ih h
  obtain ⟨ctx₂, hctx₂, hhit⟩ := index_step hw hopen hg' hs' (by rw [hspan.rest]; exact hreads.solid _) hy
    (Spans.moves hspan hreads.nonempty) hg'' hs'' hclose hctx
  have hbefore := ((hx.trans hs).trans hopen).trans hs'
  have hwhole := ((hbefore.trans hspan).trans hs'').trans hclose
  have hindex := Reads.index h₀ hg hg' hbefore.offset hreads hg''
  rw [spanAt_eq hwhole] at hindex
  exact ⟨ctx₂, _, _, hctx₂, hindex, hwhole, hhit⟩

/-- A suffix that hits makes a longer expression. -/
theorem suffixed_of_hit (h : Derives w blanks (.pattern postfixLevel suffixes ctx) c (.hit ctx₁ d)) :
    ∃ x' e', Carries ctx₁ lv c₀.offset e' ∧ Reads w.fileIndex lv 8 c₀.offset x' e' ∧ c₀.Spans x' d := by
  have hsuffixed : Suffixed w lv c₀ ctx c d := by
    obtain h | ⟨_, -, h⟩ := Derives.alt_inv h
    · obtain h | ⟨_, -, h⟩ := Derives.alt_inv h
      · exact suffixed_member hw hctx h₀ hx hg hs (Derives.act_inv rfl h).choose_spec.1
      · exact suffixed_invoke hw ih hctx h₀ hx hg hs (Derives.act_inv rfl h).choose_spec.1
    · exact suffixed_index hw ih hctx h₀ hx hg hs (Derives.act_inv rfl h).choose_spec.1
  obtain ⟨ctx₂, x', e', hctx₂, hreads, hspan, hhit⟩ := hsuffixed
  cases h.unique hhit
  exact ⟨x', e', hctx₂, hreads, hspan⟩

/-- Where the suffixes miss, nothing changes. -/
theorem suffixed_of_miss (h : Derives w blanks (.pattern postfixLevel suffixes ctx) c (.miss ctx₁)) : ctx₁ = ctx := by
  have hno : ¬ ∃ d, Suffixed w lv c₀ ctx c d := by
    rintro ⟨d, ctx₂, x', e', -, -, -, hhit⟩
    cases h.unique hhit
  have hmiss : ∀ ch ∈ c.rest.head?, ch ≠ '.' ∧ ch ≠ '(' ∧ ch ≠ '[' := by
    intro ch hch
    cases h with
    | alt_second h hindex =>
      cases h with
      | alt_second hmember hinvoke =>
        refine ⟨?_, ?_, ?_⟩ <;> rintro rfl
        · rcases act_miss_inv hmember with h | ⟨ctx₂, d, h⟩
          · exact char_not_missing hch h
          · exact hno ⟨d, suffixed_member hw hctx h₀ hx hg hs h⟩
        · rcases act_miss_inv hinvoke with h | ⟨ctx₂, d, h⟩
          · obtain ⟨d, hd⟩ := spans_of_head hch
            cases seq_miss_inv h with
            | seq_first h => cases h.unique (.act_pass (.char_of_spans hd) rfl rfl)
            | seq_second _ _ h => cases h
          · exact hno ⟨d, suffixed_invoke hw ih hctx h₀ hx hg hs h⟩
        · rcases act_miss_inv hindex with h | ⟨ctx₂, d, h⟩
          · exact char_not_missing hch (seq_miss_inv h)
          · exact hno ⟨d, suffixed_index hw ih hctx h₀ hx hg hs h⟩
  cases h.unique (suffix_miss hmiss)
  rfl

end

/-- The rounds over the suffixes. -/
theorem postfix_sound (hw : w.rules = table) (ih : ∀ c', c'.rest.length < c.rest.length → Sound w c')
    (h : Yields w blanks "Postfix" [.mode ⟨lv⟩] c v d) :
    ∃ x e, Reads w.fileIndex lv 8 c.offset x e ∧ c.Spans x d ∧ v = .expr e := by
  obtain ⟨ctx, hv, h⟩ := h
  obtain ⟨ctx₁, c₁, hfirst, hrounds⟩ := seq_many_inv suffixes_repeats (Derives.rule_inv (hw ▸ table_postfix) h)
  obtain ⟨v', rfl, hy⟩ := yields_of_call hw table_primary rfl rfl hfirst
  have hy : Yields w blanks "Primary" [.mode ⟨lv⟩] c v' c₁ := hy
  obtain ⟨x, e, hreads, hspan, rfl⟩ := primary_sound hw ih hy
  -- The text from `c` on grows with every round.
  refine Derives.rounds_rec (M := fun first ctx₁ c₁ => first = false → ∀ x e, Carries ctx₁ lv c.offset e →
    Reads w.fileIndex lv 8 c.offset x e → c.Spans x c₁ →
    ∃ x e, Reads w.fileIndex lv 8 c.offset x e ∧ c.Spans x d ∧ v = .expr e) hrounds ?_ ?_ ?_ rfl x e ⟨rfl, rfl, rfl⟩
    (.lift (Nat.le_refl 8) hreads) hspan
  · intro first hd hfirst x e hctx hreads hspan
    exact ⟨x, e, hreads, hspan, Option.some.inj (hv.symm.trans hctx.value)⟩
  · intro first ctx₁ c₁ hd hs hmiss hfirst x e hctx hreads hspan
    subst hfirst
    have hsame : ctx = ctx₁ := by
      by_cases hnil : c₁.rest = []
      · cases hmiss.unique (suffixes_repeats.ending ctx₁ c₁ hnil)
        rfl
      · obtain ⟨g, hg, hgap, -⟩ := gap_of_skip hw hs hnil
        obtain ⟨ch, y, rfl, -⟩ := hreads.head
        exact suffixed_of_miss hw (fun c' hc' => ih c' (Nat.lt_trans hc' (shorter hspan hgap))) hctx hreads hspan hg hgap
          hmiss
    subst hsame
    exact ⟨x, e, hreads, hspan, Option.some.inj (hv.symm.trans hctx.value)⟩
  · intro first ctx₁ ctx₂ c₁ c₂ c₃ hc hs hhit hmore hfirst x e hctx hreads hspan
    subst hfirst
    have hne : c₂.rest ≠ [] := by
      intro hnil
      cases hhit.unique (suffixes_repeats.ending ctx₁ c₂ hnil)
    obtain ⟨g, hg, hgap, -⟩ := gap_of_skip hw hs hne
    have hlen : c₂.rest.length < c.rest.length := by
      obtain ⟨ch, y, rfl, -⟩ := hreads.head
      exact shorter hspan hgap
    obtain ⟨x', e', hctx', hreads', hspan'⟩ := suffixed_of_hit hw (fun c' hc' => ih c' (Nat.lt_trans hc' hlen)) hctx hreads
      hspan hg hgap hhit
    exact hmore rfl x' e' hctx' hreads' hspan'

/-! ## Prefixes -/

theorem prefix_sound (hw : w.rules = table) (ih : ∀ c', c'.rest.length < c.rest.length → Sound w c')
    (h : Yields w blanks "Prefix" [.mode ⟨lv⟩] c v d) :
    ∃ x e, Reads w.fileIndex lv 7 c.offset x e ∧ c.Spans x d ∧ v = .expr e := by
  obtain ⟨ctx, hv, h⟩ := h
  obtain h | ⟨ctx₁, hmiss, h⟩ := Derives.alt_inv (Derives.rule_inv (hw ▸ table_prefix) h)
  · -- The operator is bound, and the operand is put under it.
    have hoperand : ∀ ctx₁ c₁ c₂ x e, Derives w blanks (.pattern prefixLevel (.act "Op" signs)
        ⟨[("ctx", .mode ⟨lv⟩)], none, c.offset⟩) c (.hit ctx₁ c₁) → c₁.Spans x c₂ →
        Derives w blanks (.pattern prefixLevel (.expect (.call (callAt "Operand" "Prefix" 1))) ctx₁) c₂ (.hit ctx e) →
        ∃ (op : UnaryOp) (y : List Char) (e' : Expr), c.Spans op.symbol.toList c₁ ∧
          Reads w.fileIndex lv 7 c₂.offset y e' ∧ c₂.Spans y e ∧
          ctx.value = some (.expr (.unary op e' ⟨e'.span.file, c.offset, e'.span.stop⟩)) := by
      intro ctx₁ c₁ c₂ x e ha hx hb
      obtain ⟨ctx₂, hsign, hact⟩ := Derives.act_true_inv setUnaryOp rfl ha
      obtain ⟨rfl, op, hop⟩ := unary_inv hsign
      rw [w.matched_of_spans hop, setUnaryOp, String.ofList_toList, op.ofSymbol?_symbol] at hact
      cases hact
      obtain ⟨v', rfl, hy⟩ := yields_of_call hw table_prefix rfl rfl (Derives.expect_inv hb)
      have hy : Yields w blanks (levelName 7) [.mode ⟨lv⟩] c₂ v' e := hy
      have hlen : c₂.rest.length < c.rest.length := by
        obtain ⟨ch, t, hsymbol⟩ : ∃ ch t, op.symbol.toList = ch :: t := by cases op <;> exact ⟨_, _, rfl⟩
        rw [hsymbol] at hop
        exact shorter hop hx
      obtain ⟨y, e', hreads, hspan, rfl⟩ := ih c₂ hlen lv 7 v' e (by decide) hy
      exact ⟨op, y, e', hop, hreads, hspan, rfl⟩
    obtain ⟨ctx₁, c₁, c₂, g, ha, hg, hs, -, hb⟩ := seq_over_inv hw h fun ctx₁ c₁ c₂ x e ha hx hb => by
      obtain ⟨op, y, e', -, hreads, hspan, -⟩ := hoperand ctx₁ c₁ c₂ x e ha hx hb
      exact Spans.moves hspan hreads.nonempty
    obtain ⟨op, y, e', hop, hreads, hspan, hvalue⟩ := hoperand ctx₁ c₁ c₂ g d ha hs hb
    exact ⟨_, _, .unary op hg (hop.trans hs).offset hreads, (hop.trans hs).trans hspan,
      Option.some.inj (hv.symm.trans hvalue)⟩
  · have hsame : ctx₁ = ⟨[("ctx", .mode ⟨lv⟩)], none, c.offset⟩ := by
      rcases act_miss_inv (seq_miss_inv hmiss) with hone | ⟨ctx₂, d₁, hsign⟩
      · cases (show Derives w blanks (.pattern prefixLevel (.one _) _) c (.miss ctx₁) from hone)
        rfl
      · obtain ⟨rfl, op, hop⟩ := unary_inv hsign
        have hact : setUnaryOp ⟨[("ctx", .mode ⟨lv⟩)], none, c.offset⟩ (w.matched c d₁) =
            (true, ⟨[("ctx", .mode ⟨lv⟩), ("op", .unaryOp op)], none, c.offset⟩) := by
          rw [w.matched_of_spans hop, setUnaryOp, String.ofList_toList, op.ofSymbol?_symbol]
          rfl
        cases (seq_miss_inv hmiss).unique (.act_true setUnaryOp rfl hsign hact)
    subst hsame
    obtain ⟨v', rfl, hy⟩ := yields_of_call hw table_postfix rfl rfl h
    cases hv
    obtain ⟨x, e, hreads, hspan, rfl⟩ := postfix_sound hw ih hy
    exact ⟨x, e, .lift (by decide) hreads, hspan, rfl⟩

/-! ## Binary levels -/

theorem operator_action (hk : k < 7) {op : BinaryOp} (hop : op.level = k) (hat : operatorAt c.rest = some op)
    (hc : c.Spans op.symbol.toList d) :
    Derives w blanks (.pattern (binaryRule k) (.act "Op" (operators k)) ctx) c (.hit (ctx.set "op" (.binaryOp op)) d) := by
  subst hop
  refine .act_true setBinaryOp rfl (operator_hit hat hc) ?_
  rw [w.matched_of_spans hc, setBinaryOp, String.ofList_toList, op.ofSymbol?_symbol]

theorem binary_of_miss (hk : k < 7)
    (h : Derives w blanks (.pattern (binaryRule k) (binaryBody k) ctx) c (.miss ctx₁)) : ctx₁ = ctx := by
  by_cases hop : ∀ op, operatorAt c.rest = some op → op.level ≠ k
  · cases (seq_miss_inv h).unique (.act_miss (operator_miss hk hop))
    rfl
  · simp only [not_forall, not_not] at hop
    obtain ⟨op, hat, hlevel⟩ := hop
    obtain ⟨d, hd⟩ := Cursor.exists_spans (operatorAt_begins hat)
    cases (seq_miss_inv h).unique (operator_action hk hlevel hat hd)

/-- A round of a binary level makes a longer expression. -/
theorem binary_of_hit (hw : w.rules = table) (hk : k < 7) (ih : ∀ c', c'.rest.length < c.rest.length → Sound w c')
    {c' : Cursor} {g : List Char} (hctx : Carries ctx lv c₀.offset e) (h₀ : Reads w.fileIndex lv k c₀.offset x e)
    (hx : c₀.Spans x c') (hg : Gap g) (hs : c'.Spans g c)
    (h : Derives w blanks (.pattern (binaryRule k) (binaryBody k) ctx) c (.hit ctx₁ d)) (hsolid : Solid c.rest) :
    ∃ x' e', Carries ctx₁ lv c₀.offset e' ∧ Reads w.fileIndex lv k c₀.offset x' e' ∧ c₀.Spans x' d := by
  have hoperand : ∀ ctx₂ c₁ c₂ x e₁, Derives w blanks (.pattern (binaryRule k) (.act "Op" (operators k)) ctx) c
      (.hit ctx₂ c₁) → c₁.Spans x c₂ → Derives w blanks (.pattern (binaryRule k)
        (.expect (.call (callAt "Right" (levelName (k + 1)) 1))) ctx₂) c₂ (.hit ctx₁ e₁) →
      ∃ (op : BinaryOp) (y : List Char) (e' : Expr), op.level = k ∧ operatorAt c.rest = some op ∧
        c.Spans op.symbol.toList c₁ ∧ Yields w blanks (levelName (k + 1)) [.mode ⟨lv⟩] c₂ (.expr e') e₁ ∧
        Reads w.fileIndex lv (k + 1) c₂.offset y e' ∧ c₂.Spans y e₁ := by
    intro ctx₂ c₁ c₂ x e₁ ha hx hb
    obtain ⟨ctx₃, hpat, -⟩ := Derives.act_inv rfl ha
    obtain ⟨-, op, hlevel, hat, hop⟩ := operator_inv hk hpat
    cases ha.unique (operator_action hk hlevel hat hop)
    obtain ⟨callee, hcallee, hvalue⟩ := exists_level (k + 1)
    obtain ⟨v', -, hy⟩ := yields_of_call hw hcallee hvalue rfl (Derives.expect_inv hb)
    have hmode : (ctx.set "op" (.binaryOp op)).get? "ctx" = some (.mode ⟨lv⟩) := by
      rw [get?_set_ne _ _ (by decide), hctx.mode]
    rw [argumentsOf_forward rfl hmode] at hy
    have hlen : c₂.rest.length < c.rest.length := by
      obtain ⟨ch, t, hsymbol⟩ : ∃ ch t, op.symbol.toList = ch :: t := by cases op <;> exact ⟨_, _, rfl⟩
      rw [hsymbol] at hop
      exact shorter hop hx
    obtain ⟨y, e', hreads, hspan, rfl⟩ := ih c₂ hlen lv (k + 1) v' e₁ (by omega) hy
    exact ⟨op, y, e', hlevel, hat, hop, hy, hreads, hspan⟩
  obtain ⟨ctx₂, c₁, c₂, g', ha, hg', hs', -, hb⟩ := seq_over_inv hw h fun ctx₂ c₁ c₂ x e ha hx hb => by
    obtain ⟨op, y, e', -, -, -, -, hreads, hspan⟩ := hoperand ctx₂ c₁ c₂ x e ha hx hb
    exact Spans.moves hspan hreads.nonempty
  obtain ⟨op, y, e', hlevel, hat, hop, hy, hreads, hspan⟩ := hoperand ctx₂ c₁ c₂ g' d ha hs' hb
  obtain ⟨ctx₃, hctx₃, hhit⟩ := binary_step hw hk op hlevel hat hop hg' hs' (by rw [hspan.rest]; exact hreads.solid _) hy
    (Spans.moves hspan hreads.nonempty) hctx
  cases h.unique hhit
  have hbefore := ((hx.trans hs).trans hop).trans hs'
  refine ⟨_, _, hctx₃, .binary op hlevel h₀ hg hg' ?_ hbefore.offset hreads, hbefore.trans hspan⟩
  -- A slash before a slash is solid in no text.
  rintro rfl hslash
  obtain ⟨t, rfl⟩ := List.head?_eq_some_iff.1 hslash
  rw [hop.rest, hs'.rest] at hsolid
  exact not_solid_slashes _ hsolid

theorem binary_sound (hw : w.rules = table) (hk : k < 7) (ih : ∀ c', c'.rest.length < c.rest.length → Sound w c')
    (hnext : ∀ v d, Yields w blanks (levelName (k + 1)) [.mode ⟨lv⟩] c v d →
      ∃ x e, Reads w.fileIndex lv (k + 1) c.offset x e ∧ c.Spans x d ∧ v = .expr e)
    (h : Yields w blanks (levelName k) [.mode ⟨lv⟩] c v d) :
    ∃ x e, Reads w.fileIndex lv k c.offset x e ∧ c.Spans x d ∧ v = .expr e := by
  obtain ⟨ctx, hv, h⟩ := h
  have hdef := Derives.rule_inv (hw ▸ table_binary hk) h
  rw [binaryRule_definition hk] at hdef
  obtain ⟨ctx₁, c₁, hfirst, hrounds⟩ := seq_many_inv (binary_repeats hk) hdef
  obtain ⟨callee, hcallee, hvalue⟩ := exists_level (k + 1)
  obtain ⟨v', rfl, hy⟩ := yields_of_call hw hcallee hvalue rfl hfirst
  obtain ⟨x, e, hreads, hspan, rfl⟩ := hnext v' c₁ hy
  refine Derives.rounds_rec (M := fun first ctx₁ c₁ => first = false → ∀ x e, Carries ctx₁ lv c.offset e →
    Reads w.fileIndex lv k c.offset x e → c.Spans x c₁ →
    ∃ x e, Reads w.fileIndex lv k c.offset x e ∧ c.Spans x d ∧ v = .expr e) hrounds ?_ ?_ ?_ rfl x e ⟨rfl, rfl, rfl⟩
    (.lift (by omega) hreads) hspan
  · intro first hd hfirst x e hctx hreads hspan
    exact ⟨x, e, hreads, hspan, Option.some.inj (hv.symm.trans hctx.value)⟩
  · intro first ctx₁ c₁ hd hs hmiss hfirst x e hctx hreads hspan
    obtain rfl := binary_of_miss hk hmiss
    exact ⟨x, e, hreads, hspan, Option.some.inj (hv.symm.trans hctx.value)⟩
  · intro first ctx₁ ctx₂ c₁ c₂ c₃ hc hs hhit hmore hfirst x e hctx hreads hspan
    subst hfirst
    have hne : c₂.rest ≠ [] := by
      intro hnil
      cases hhit.unique ((binary_repeats hk).ending ctx₁ c₂ hnil)
    obtain ⟨g, hg, hgap, hsolid⟩ := gap_of_skip hw hs hne
    have hlen : c₂.rest.length < c.rest.length := by
      obtain ⟨ch, y, rfl, -⟩ := hreads.head
      exact shorter hspan hgap
    obtain ⟨x', e', hctx', hreads', hspan'⟩ := binary_of_hit hw hk (fun c' hc' => ih c' (Nat.lt_trans hc' hlen)) hctx
      hreads hspan hg hgap hhit hsolid
    exact hmore rfl x' e' hctx' hreads' hspan'

/-- Everything that is read as an expression is a text of the grammar. -/
theorem sound (hw : w.rules = table) (c : Cursor) : Sound w c := by
  generalize hn : c.rest.length = n
  induction n using Nat.strongRecOn generalizing c with
  | ind n ihn =>
    subst hn
    have ih : ∀ c', c'.rest.length < c.rest.length → Sound w c' := fun c' hc' => ihn _ hc' c' rfl
    -- Downward from the tightest level, which may go back to the loosest one further on.
    have hprefix : ∀ lv v d, Yields w blanks (levelName 7) [.mode ⟨lv⟩] c v d →
        ∃ x e, Reads w.fileIndex lv 7 c.offset x e ∧ c.Spans x d ∧ v = .expr e := fun _ _ _ => prefix_sound hw ih
    have hbinary : ∀ j ≤ 7, ∀ lv v d, Yields w blanks (levelName (7 - j)) [.mode ⟨lv⟩] c v d →
        ∃ x e, Reads w.fileIndex lv (7 - j) c.offset x e ∧ c.Spans x d ∧ v = .expr e := by
      intro j hj
      induction j with
      | zero => exact hprefix
      | succ j ihj =>
        intro lv v d
        have hnext : 7 - (j + 1) + 1 = 7 - j := by omega
        refine binary_sound hw (by omega) ih ?_
        rw [hnext]
        exact ihj (by omega) lv
    intro lv k v d hk h
    match k, hk with
    | 0, _ => exact hbinary 7 (by decide) lv v d h
    | 1, _ => exact hbinary 6 (by decide) lv v d h
    | 2, _ => exact hbinary 5 (by decide) lv v d h
    | 3, _ => exact hbinary 4 (by decide) lv v d h
    | 4, _ => exact hbinary 3 (by decide) lv v d h
    | 5, _ => exact hbinary 2 (by decide) lv v d h
    | 6, _ => exact hbinary 1 (by decide) lv v d h
    | 7, _ => exact hprefix lv v d h
    | 8, _ => exact postfix_sound hw ih h
    | 9, _ => exact primary_sound hw ih h

end

end PegFront.Cminor
