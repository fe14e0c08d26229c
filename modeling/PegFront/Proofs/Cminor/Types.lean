import PegFront.Proofs.Cminor.Spans

/-!
# Types

A type is a basic type or a dotted name, and then pairs of brackets. The rule for types also reads the dotted name
that many expressions begin with; `Breaks` says of what follows that no declaration can come of it.
-/

namespace PegFront.Cminor

/-- Names with dots between them and nothing else. -/
inductive Dotted : List Char → Prop
  | name {x} (h : isName x = true) : Dotted x
  | more {x y} (h : isName x = true) (hy : Dotted y) : Dotted (x ++ '.' :: y)

section
variable {w : World Value} {skip : Option RuleId} {rule : Rule Value} {a b : Pattern}
  {ctx ctx₁ ctx₂ : Context Value} {c c₁ c₂ c₃ d : Cursor} {x y : List Char}

/-! ## Over gaps -/

/-- The next token after `c` begins at `d`. -/
def Over (c d : Cursor) : Prop := ∃ g, Gap g ∧ c.Spans g d ∧ Solid d.rest

theorem seq_next (hw : w.rules = table) (ha : Derives w blanks (.pattern rule a ctx) c (.hit ctx₁ c₁))
    (ho : Over c₁ c₂) (hb : Derives w blanks (.pattern rule b ctx₁) c₂ (.hit ctx₂ d)) (hd : d.offset ≠ c₂.offset) :
    Derives w blanks (.pattern rule (.seq a b) ctx) c (.hit ctx₂ d) := by
  obtain ⟨g, hg, hs, hsolid⟩ := ho
  exact seq_over hw ha hg hs hsolid hb hd

/-- What comes after the next token is skipped to. -/
theorem Over.skips (ho : Over c d) (hw : w.rules = table) (ctx : Context Value) :
    Derives w blanks (.skip ctx) c (.hit ctx d) := by
  obtain ⟨g, hg, hs, hsolid⟩ := ho
  exact skip_gap hw hg hs hsolid ctx

/-- The next token begins with a char that stands apart from gaps. -/
theorem over_char {g : List Char} {ch : Char} (hg : Gap g) (hs : c.Spans g d) (hd : d.rest.head? = some ch)
    (hb : Text.isBlank ch = false) (hch : ch ≠ '/') : Over c d := by
  obtain ⟨t, ht⟩ := List.head?_eq_some_iff.1 hd
  exact ⟨g, hg, hs, by rw [ht]; exact solid_cons hb hch t⟩

/-! ## Dotted names -/

theorem Dotted.snoc (h : Dotted x) (hy : isName y = true) : Dotted (x ++ '.' :: y) := by
  induction h with
  | name h => exact .more h (.name hy)
  | more h _ ih =>
    rw [List.append_assoc]
    exact .more h ih

theorem Dotted.nonempty (h : Dotted x) : x ≠ [] := by
  cases h with
  | name h => rintro rfl; cases h
  | more => simp

def qualifiedRule : Rule Value := linked Identifiers.grammarName Identifiers.qualifiedId

theorem table_qualified : table[idOf "QualifiedId"]? = some qualifiedRule :=
  table_idOf Identifiers.grammar (by simp [registry_grammars]) Identifiers.qualifiedId (by simp [Identifiers.grammar])

def nameItem : Pattern := .call (callAt "Identifier" "Identifier" 0)

theorem nameItem_hit (hw : w.rules = table) (hx : isName x = true) (hc : c.Spans x d) (hd : WordEnd d.rest)
    (ctx : Context Value) :
    ∃ ctx', Derives w none (.pattern qualifiedRule nameItem ctx) c (.hit ctx' d) :=
  ⟨_, (name_hit hw hx hc hd).call hw table_name rfl rfl rfl rfl⟩

/-- A dotted name as far as it goes, from its first name on. -/
theorem dotted_items (hw : w.rules = table) (hx : Dotted x) (hc : c.Spans x d) (hd : WordEnd d.rest)
    (hdot : ∀ u, d.rest = '.' :: u → NoWord u) (ctx : Context Value) :
    ∃ ctx₁, Derives w none (.pattern qualifiedRule (.list nameItem (.char '.')) ctx) c (.hit ctx₁ d) := by
  induction hx generalizing c ctx with
  | name h =>
    obtain ⟨ctx₁, hitem⟩ := nameItem_hit hw h hc hd ctx
    refine ⟨ctx₁, .list_hit hitem ?_⟩
    by_cases hhead : d.rest.head? = some '.'
    · obtain ⟨u, hu⟩ := List.head?_eq_some_iff.1 hhead
      have hsep : d.Spans ['.'] ⟨d.offset + Text.byteLength ['.'], u⟩ := ⟨hu, rfl⟩
      exact .items_back .skip_none (.char_of_spans hsep) .skip_none
        ((name_miss_noWord hw (hdot u hu)).call rfl rfl rfl)
    · exact .items_end .skip_none (.char_of_head hhead)
  | more h _ ih =>
    obtain ⟨c₁, hname, hc⟩ := Cursor.spans_append.1 hc
    obtain ⟨c₂, hsep, hrest⟩ := Cursor.spans_append.1 (show c₁.Spans (['.'] ++ _) d from hc)
    obtain ⟨ctx₁, hitem⟩ := nameItem_hit hw h hname (by rw [hsep.rest]; rintro _ ⟨⟩; decide) ctx
    obtain ⟨ctx₂, hlist⟩ := ih hrest ctx₁
    refine ⟨ctx₂, .list_hit hitem ?_⟩
    cases hlist with
    | list_hit hnext hitems => exact .items_hit .skip_none (.char_of_spans hsep) .skip_none hnext hitems

theorem qualified_hit (hw : w.rules = table) (hx : Dotted x) (hc : c.Spans x d) (hd : WordEnd d.rest)
    (hdot : ∀ u, d.rest = '.' :: u → NoWord u) :
    Yields w skip "QualifiedId" [] c (.identifier ⟨String.ofList x, w.span c d⟩) d := by
  obtain ⟨ctx₁, hlist⟩ := dotted_items hw hx hc hd hdot ⟨[], none, c.offset⟩
  refine yields_of hw table_qualified rfl (.act_pass (.token hlist) rfl rfl) ?_
  rw [w.matched_of_spans hc]
  rfl

theorem qualified_miss (hw : w.rules = table) (h : Misses w none "Identifier" [] c) :
    Misses w skip "QualifiedId" [] c :=
  misses_of hw table_qualified rfl (.act_miss (.token (.list_miss (h.call rfl rfl rfl))))

/-! ## Types -/

def typeRule : Rule Value := linked Types.grammarName Types.typeExpr

theorem table_type : table[idOf "TypeExpr"]? = some typeRule :=
  table_idOf Types.grammar (by simp [registry_grammars]) Types.typeExpr (by simp [Types.grammar])

def basicPart : Pattern := .act "Basic" (aimed (.ofWords (.rule "identifier") (BasicType.all.map (·.keyword))))

def namedPart : Pattern := .act "Named" (.call (callAt "QualifiedId" "QualifiedId" 0))

def arrayPart : Pattern := .act "Array" (.seq (.char '[') (.char ']'))

theorem typeRule_definition : typeRule.definition = .seq (.alt basicPart namedPart) (.many arrayPart) := rfl

/-- The rule was entered at `o` and has read a type so far. -/
structure Holds (ctx : Context Value) (o : Nat) (t : TypeExpr) : Prop where
  value : ctx.value = some (.type t)
  start : ctx.start = o

/-- A type was read from `c` to `d`, and brackets may follow. -/
abbrev TypeRead (w : World Value) (c : Cursor) (t : TypeExpr) (d : Cursor) : Prop :=
  Continues w typeRule arrayPart [] c (fun ctx => Holds ctx c.offset t) d

theorem array_repeats : Repeats w typeRule arrayPart where
  ending := by
    intro ctx c hc
    exact .act_miss (.seq_first (.char_of_head (by rw [hc]; exact nofun)))
  moving := by
    intro ctx ctx' c d h
    obtain ⟨_, hseq, -⟩ := Derives.act_inv rfl h
    obtain ⟨_, c₁, c₂, e, hopen, hs, hclose, hd⟩ := Derives.seq_inv hseq
    have hopen := (Derives.char_inv hopen).2
    have hmove := Spans.moves hopen (by simp)
    have hfrom := hopen.offset
    obtain ⟨x, hx⟩ := hs.spans
    obtain ⟨y, hy⟩ := hclose.spans
    have := hx.offset
    have := hy.offset
    rcases hd with ⟨-, rfl⟩ | ⟨-, rfl⟩ <;> omega

theorem typed_first (hw : w.rules = table) {t : TypeExpr} {vars : Bindings Value}
    (h : Derives w blanks (.pattern typeRule (.alt basicPart namedPart) ⟨[], none, c.offset⟩) c
      (.hit ⟨vars, some (.type t), c.offset⟩ d)) : TypeRead w c t d :=
  continues_of hw table_type rfl typeRule_definition array_repeats h ⟨rfl, rfl⟩

theorem BasicType.ofKeyword?_keyword (t : BasicType) : BasicType.ofKeyword? t.keyword = some t := by cases t <;> rfl

theorem typed_basic (hw : w.rules = table) (t : BasicType) (hc : c.Spans t.keyword.toList d) (hd : WordEnd d.rest) :
    TypeRead w c (.basic t (w.span c d)) d := by
  have hword : isWord t.keyword.toList = true := by cases t <;> decide
  have hmem : String.ofList t.keyword.toList ∈ BasicType.all.map (·.keyword) := by cases t <;> decide
  have hact : Types.basic ⟨[], none, c.offset⟩ (w.matched c d) =
      (true, ⟨[], some (.type (.basic t (w.span c d))), c.offset⟩) := by
    rw [w.matched_of_spans hc, Types.basic, String.ofList_toList, t.ofKeyword?_keyword]
    rfl
  exact typed_first hw (.alt_first (.act_true Types.basic rfl (ofWords_hit hw rfl hword hc hd hmem) hact))

/-- No basic type begins here. -/
theorem basic_miss (hw : w.rules = table)
    (h : ∀ x d, isWord x = true → c.Spans x d → WordEnd d.rest → String.ofList x ∉ BasicType.all.map (·.keyword)) :
    Derives w blanks (.pattern typeRule basicPart ctx) c (.miss ctx) :=
  .act_miss (ofWords_miss hw rfl h)

/-- The first name of a dotted one. -/
theorem Dotted.first (hx : Dotted x) (hc : c.Spans x d) (hd : WordEnd d.rest) :
    ∃ y e, isName y = true ∧ c.Spans y e ∧ WordEnd e.rest := by
  cases hx with
  | name h => exact ⟨_, _, h, hc, hd⟩
  | more h =>
    obtain ⟨c₁, hname, hc⟩ := Cursor.spans_append.1 hc
    refine ⟨_, _, h, hname, ?_⟩
    rw [hc.rest]
    rintro _ ⟨⟩
    decide

theorem typed_named (hw : w.rules = table) (hx : Dotted x) (hc : c.Spans x d) (hd : WordEnd d.rest)
    (hdot : ∀ u, d.rest = '.' :: u → NoWord u) :
    TypeRead w c (.named ⟨String.ofList x, w.span c d⟩ (w.span c d)) d := by
  obtain ⟨y, e, hy, he, hend⟩ := hx.first hc hd
  have hbasic : Derives w blanks (.pattern typeRule basicPart ⟨[], none, c.offset⟩) c (.miss ⟨[], none, c.offset⟩) := by
    refine basic_miss hw fun z e' hz he' hend' hmem => (isName_iff.1 hy).2 ?_
    rw [← (run_unique (all_of_isWord hz) (all_of_isWord (isName_iff.1 hy).1) hend' hend (he'.rest.symm.trans he.rest)).1]
    exact (by decide : BasicType.all.map (·.keyword) ⊆ keywords) hmem
  have hcall : Derives w blanks (.pattern typeRule (.call (callAt "QualifiedId" "QualifiedId" 0))
      ⟨[], none, c.offset⟩) c
      (.hit ⟨[("QualifiedId", .identifier ⟨String.ofList x, w.span c d⟩)], none, c.offset⟩ d) :=
    (qualified_hit hw hx hc hd hdot).call hw table_qualified rfl rfl rfl rfl
  exact typed_first hw (.alt_second hbasic (.act_true Types.named rfl hcall rfl))

theorem typed_array (hw : w.rules = table) {t : TypeExpr} (h : TypeRead w c t c₁) (ho : Over c₁ c₂)
    (hopen : c₂.Spans ['['] c₃) {c₄ : Cursor} (ho' : Over c₃ c₄) (hclose : c₄.Spans [']'] d) :
    TypeRead w c (.array t ⟨w.fileIndex, c.offset, d.offset⟩) d := by
  obtain ⟨g, hg, hs, hsolid⟩ := ho
  refine h.more hw hg hs hsolid (by rw [hopen.rest]; exact nofun) fun ctx hctx => ?_
  obtain ⟨vars, value, start⟩ := ctx
  obtain rfl : value = some (.type t) := hctx.value
  obtain rfl : start = c.offset := hctx.start
  exact ⟨_, ⟨rfl, rfl⟩, .act_true Types.array rfl (seq_next hw (.char_of_spans hopen) ho' (.char_of_spans hclose)
    (Spans.moves hclose (by simp))) rfl⟩

theorem arrayPart_miss (hw : w.rules = table)
    (h : ∀ u, c.rest = '[' :: u → ∃ r, afterGap u = some r ∧ r.head? ≠ some ']') :
    Derives w blanks (.pattern typeRule arrayPart ctx) c (.miss ctx) := by
  by_cases hhead : c.rest.head? = some '['
  · obtain ⟨u, hu⟩ := List.head?_eq_some_iff.1 hhead
    obtain ⟨r, hr, hclose⟩ := h u hu
    have hopen : c.Spans ['['] ⟨c.offset + Text.byteLength ['['], u⟩ := ⟨hu, rfl⟩
    obtain ⟨d₁, hs, hd₁⟩ | ⟨-, hnone⟩ := skip_blanks hw ctx ⟨c.offset + Text.byteLength ['['], u⟩
    · obtain rfl : d₁.rest = r := Option.some.inj (hd₁.symm.trans hr)
      exact .act_miss (.seq_second (.char_of_spans hopen) hs (.char_of_head hclose))
    · cases hnone.symm.trans hr
  · exact .act_miss (.seq_first (.char_of_head hhead))

theorem typed_done (hw : w.rules = table) {t : TypeExpr} {r : List Char} (h : TypeRead w c t d)
    (hr : afterGap d.rest = some r) (hopen : ∀ u, r = '[' :: u → ∃ r', afterGap u = some r' ∧ r'.head? ≠ some ']') :
    Yields w blanks "TypeExpr" [] c (.type t) d :=
  h.done hw (fun _ hctx => hctx.value) hr fun _ _ hd₁ => arrayPart_miss hw (by rw [hd₁]; exact hopen)

/-- Where no type begins. -/
theorem type_miss (hw : w.rules = table)
    (h : ∀ x d, isWord x = true → c.Spans x d → WordEnd d.rest →
      String.ofList x ∈ keywords ∧ String.ofList x ∉ BasicType.all.map (·.keyword)) :
    Misses w blanks "TypeExpr" [] c :=
  misses_of hw table_type rfl (.seq_first (.alt_second (basic_miss hw fun x d hx hc hd => (h x d hx hc hd).2)
    (.act_miss ((qualified_miss hw (name_miss hw fun x d hx hc hd => (h x d hx hc hd).1)).call rfl rfl rfl))))

/-! ## What no declaration begins with -/

/-- A dotted name that ends here is read as a type, and no name follows it. -/
structure Breaks (t : List Char) : Prop where
  word : WordEnd t
  dot : ∀ u, t = '.' :: u → NoWord u
  next : ∃ r, afterGap t = some r ∧ NoWord r ∧ ∀ u, r = '[' :: u → ∃ r', afterGap u = some r' ∧ r'.head? ≠ some ']'

theorem Breaks.type (hw : w.rules = table) (hx : Dotted x) (hc : c.Spans x d) (hd : Breaks d.rest) :
    Yields w blanks "TypeExpr" [] c (.type (.named ⟨String.ofList x, w.span c d⟩ (w.span c d))) d := by
  obtain ⟨r, hr, -, hopen⟩ := hd.next
  exact typed_done hw (typed_named hw hx hc hd.word hd.dot) hr hopen

end

end PegFront.Cminor
