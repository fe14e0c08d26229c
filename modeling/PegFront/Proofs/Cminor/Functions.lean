import PegFront.Proofs.Cminor.SentencesSound

/-!
# The grammar of compile units on texts

A function is a type, a name, parameters in parentheses and a block; a compile unit is a row of functions. As with
statements, `FunctionText f o x fn` says that the text `x`, standing at the offset `o` of the file `f`, is a function and
`fn` its tree. The rules read these texts and nothing else, so a source parses as a compile unit exactly if it is one
between gaps (`parseCompileUnit_eq_ok_iff`).
-/

namespace PegFront.Cminor

open PegFront.Cminor.Units

/-! ## Texts -/

/-- A type and the name of what it is the type of. -/
inductive DeclaredText (f o : Nat) : List Char → TypeExpr → Identifier → Prop
  | mk {o' x g y t} (hx : TypeText f o x t) (hg : Gap g) (hsep : t.isArray = true ∨ g ≠ []) (hy : isName y = true)
      (ho : o' = o + Text.byteLength (x ++ g)) : DeclaredText f o (x ++ g ++ y) t ⟨String.ofList y, spanAt f o' y⟩

inductive ParameterText (f o : Nat) : List Char → Parameter → Prop
  | mk {x t id} (h : DeclaredText f o x t id) : ParameterText f o x ⟨t, id, spanAt f o x⟩

/-- What sets a parameter off from the one before. -/
def Comma (x : List Char) : Prop := ∃ g g', Gap g ∧ Gap g' ∧ x = g ++ [','] ++ g'

inductive ParametersText (f o : Nat) : List Char → List Parameter → Prop
  | mk {o' x p as} (h : ParameterText f o x p) (ho : o' = o + Text.byteLength x) (hp : Element.Placed Comma o' as)
      (has : ∀ a ∈ as, ParameterText f a.start a.text a.value) :
      ParametersText f o (x ++ Element.written as) (p :: as.map (·.value))

inductive FunctionText (f o : Nat) : List Char → FunctionDef → Prop
  | mk {o₁ o₂ x g p g₁ g₂ y t id ps items span} (hd : DeclaredText f o x t id) (hg : Gap g)
      (ho₁ : o₁ = o + Text.byteLength (x ++ g ++ ['('])) (hp : Optionally (ParametersText f) o₁ p ps) (hg₁ : Gap g₁)
      (hg₂ : Gap g₂) (ho₂ : o₂ = o + Text.byteLength (x ++ g ++ ['('] ++ p ++ g₁ ++ [')'] ++ g₂))
      (hb : Says f o₂ y (.compound items span)) :
      FunctionText f o (x ++ g ++ ['('] ++ p ++ g₁ ++ [')'] ++ g₂ ++ y)
        ⟨t, id, ps.getD [], .compound items span,
          spanAt f o (x ++ g ++ ['('] ++ p ++ g₁ ++ [')'] ++ g₂ ++ y)⟩

inductive UnitText (f : Nat) (file : String) (o : Nat) : List Char → CompileUnit → Prop
  | empty : UnitText f file o [] ⟨file, [], spanAt f o []⟩
  | functions {o' x fn as} (h : FunctionText f o x fn) (ho : o' = o + Text.byteLength x) (hp : Element.Placed Gap o' as)
      (has : ∀ a ∈ as, FunctionText f a.start a.text a.value) :
      UnitText f file o (x ++ Element.written as)
        ⟨file, fn :: as.map (·.value), spanAt f o (x ++ Element.written as)⟩

section
variable {f o : Nat} {x t : List Char} {type : TypeExpr} {id : Identifier} {fn : FunctionDef} {p : Parameter}

theorem DeclaredText.solid (h : DeclaredText f o x type id) (t : List Char) : Solid (x ++ t) := by
  cases h with
  | mk hx =>
    obtain ⟨ch, y, rfl, hch⟩ := hx.head
    have hopen : isOpening ch = true := by simp [isOpening, hch]
    exact solid_cons (isOpening_apart hopen).1 (isOpening_apart hopen).2.1 _

theorem DeclaredText.nonempty (h : DeclaredText f o x type id) : x ≠ [] := by
  cases h with
  | mk hx =>
    obtain ⟨ch, y, rfl, -⟩ := hx.head
    exact List.cons_ne_nil _ _

theorem ParameterText.solid (h : ParameterText f o x p) (t : List Char) : Solid (x ++ t) := by
  cases h with
  | mk h => exact h.solid t

theorem FunctionText.solid (h : FunctionText f o x fn) (t : List Char) : Solid (x ++ t) := by
  cases h with
  | mk hd =>
    simp only [List.append_assoc]
    exact hd.solid _

theorem FunctionText.nonempty (h : FunctionText f o x fn) : x ≠ [] := by
  cases h with
  | mk hd => simp [hd.nonempty]

end

/-! ## The rules -/

section
variable {w : World Value} {rule : Rule Value} {b : Pattern} {ctx ctx₁ : Context Value} {c c₁ c₂ c₃ d d' d'' : Cursor}
  {label : String} {o : Nat} {x : List Char} {t : TypeExpr} {id : Identifier} {v : Value}

/-- A rule of the grammar of compile units. -/
abbrev ofUnits (rule : Rule Value) : Rule Value := linked Units.grammarName rule

theorem table_ofUnits (rule : Rule Value) (hr : rule ∈ Units.grammar.rules) :
    table[idOf rule.name]? = some (ofUnits rule) :=
  table_idOf Units.grammar (by simp [registry_grammars]) rule hr

theorem table_unit : table[idOf "CompileUnit"]? = some (ofUnits unitRule) :=
  table_ofUnits unitRule (by simp [Units.grammar])

theorem table_function : table[idOf "Function"]? = some (ofUnits functionRule) :=
  table_ofUnits functionRule (by simp [Units.grammar])

theorem table_parameter : table[idOf "Parameter"]? = some (ofUnits parameterRule) :=
  table_ofUnits parameterRule (by simp [Units.grammar])

/-! ## Functions are read -/

/-- A type and a name, as the parts they are read by. -/
theorem DeclaredText.parts (hw : w.rules = table) (h : DeclaredText w.fileIndex o x t id) (hc : c.Spans x d)
    (ho : c.offset = o) (hd : WordEnd d.rest) : ∃ c₁ c₂, Part w "TypeExpr" [] c (.type t) c₁ ∧ Over c₁ c₂ ∧
      Part w "Identifier" [] c₂ (.identifier id) d := by
  cases h with
  | mk hx hg hsep hy ho' =>
    obtain ⟨c₂, hc₂, hname⟩ := Cursor.spans_append.1 hc
    obtain ⟨c₁, htype, hs⟩ := Cursor.spans_append.1 hc₂
    obtain ⟨hpart, hover⟩ := hx.part hw htype ho hg hsep hs hy hname
    rw [ho', ← ho, ← hc₂.offset, spanAt_eq hname]
    refine ⟨c₁, c₂, hpart, hover, name_hit hw hy hname hd, Spans.moves hname ?_⟩
    rintro rfl
    cases hy

theorem ParameterText.part (hw : w.rules = table) {p : Parameter} (h : ParameterText w.fileIndex o x p) (hc : c.Spans x d)
    (ho : c.offset = o) (hd : WordEnd d.rest) : Part w "Parameter" [] c (.parameter p) d := by
  cases h with
  | mk h =>
    obtain ⟨c₁, c₂, htype, hover, hname⟩ := h.parts hw hc ho hd
    subst ho
    rw [spanAt_eq hc]
    exact Steps.part parameter hw table_parameter rfl rfl rfl
      ((Steps.call (k := callAt "TypeExpr" "TypeExpr" 0) hw table_type rfl htype rfl rfl rfl).next hw hover
        (.expect (.call (k := callAt "Identifier" "Identifier" 0) hw table_name rfl hname rfl rfl rfl))) rfl rfl

/-- What is known of a function when some of its parameters are read. -/
def signatureOf (t : TypeExpr) (id : Identifier) (o : Nat) (ps : List Parameter) : Context Value :=
  ⟨[("ReturnType", .type t), ("Identifier", .identifier id)] ++
    (match ps with | [] => [] | p :: ps => [("parameters", .list ((p :: ps).map .parameter))]), none, o⟩

theorem pushItem_signatureOf (t : TypeExpr) (id : Identifier) (o : Nat) (ps : List Parameter) (p : Parameter) :
    pushItem "parameters" (signatureOf t id o ps) (.parameter p) = signatureOf t id o (ps ++ [p]) := by
  cases ps with
  | nil => rfl
  | cons p' ps =>
    have happend : (p' :: ps ++ [p]).map Value.parameter = (p' :: ps).map Value.parameter ++ [.parameter p] := by simp
    show (signatureOf t id o (p' :: ps)).set "parameters" (.list ((p' :: ps).map .parameter ++ [.parameter p])) = _
    rw [← happend]
    rfl

theorem takeAs_of_get? {α : Type} {content? : Value → Option α} {name : String} {a : α} (h : ctx.get? name = some v)
    (ha : content? v = some a) : takeAs content? name ctx = (some a, (ctx.take name).2) := by
  simp only [takeAs, Context.take, h, Option.bind_some, ha]

/-- A function is put together from what is known of it and its body. -/
theorem function_signatureOf (t : TypeExpr) (id : Identifier) (o : Nat) (ps : List Parameter) (body : Statement)
    (m : Matched) : ∃ ctx : Context Value, function ((signatureOf t id o ps).set "Body" (.statement body)) m =
      (true, ctx.setValue (.function ⟨t, id, ps, body, m.span⟩)) := by
  generalize hctx : (signatureOf t id o ps).set "Body" (.statement body) = ctx
  have htype : takeAs Value.type? "ReturnType" ctx = (some t, (ctx.take "ReturnType").2) :=
    takeAs_of_get? (by rw [← hctx]; rfl) rfl
  generalize hctx₁ : (ctx.take "ReturnType").2 = ctx₁ at htype
  have hname : takeAs Value.identifier? "Identifier" ctx₁ = (some id, (ctx₁.take "Identifier").2) :=
    takeAs_of_get? (by rw [← hctx₁, ← hctx]; rfl) rfl
  generalize hctx₂ : (ctx₁.take "Identifier").2 = ctx₂ at hname
  have hbody : takeAs Value.statement? "Body" ctx₂ = (some body, (ctx₂.take "Body").2) :=
    takeAs_of_get? (v := .statement body) (by rw [← hctx₂, ← hctx₁, ← hctx]; cases ps <;> rfl) rfl
  have hkeeps : Keeps (ctx₂.take "Body").2 "parameters" .parameter ps := by
    subst hctx hctx₁ hctx₂
    cases ps with
    | nil => exact .inr ⟨rfl, rfl⟩
    | cons => exact .inl rfl
  have hparameters : takeItems Value.parameter? "parameters" (ctx₂.take "Body").2 = _ := hkeeps.taken fun _ => rfl
  refine ⟨((ctx₂.take "Body").2.take "parameters").2, ?_⟩
  simp only [function, htype, hname, hbody, hparameters]

theorem parameter_call (t : TypeExpr) (id : Identifier) (o : Nat) (hw : w.rules = table) {p : Parameter} (ps : List Parameter)
    (h : Part w "Parameter" [] c (.parameter p) d) :
    Derives w blanks (.pattern (ofUnits functionRule) (.call (callAt "Parameter" "Parameter" 0)) (signatureOf t id o ps)) c
      (.hit (signatureOf t id o (ps ++ [p])) d) := by
  rw [← pushItem_signatureOf]
  exact h.yields.call hw table_parameter rfl rfl rfl rfl

/-- What follows a parameter is a comma or the closing parenthesis. -/
theorem wordEnd_parameters {as : List (Element Parameter)} {g u : List Char} (hp : Element.Placed Comma o as) (hg : Gap g) :
    WordEnd (Element.written as ++ (g ++ ')' :: u)) := by
  cases as with
  | nil => exact wordEnd_gap hg (by decide) _
  | cons a as =>
    obtain ⟨⟨g₁, g₂, hg₁, -, hlead⟩, -⟩ := hp
    have hwritten : Element.written (a :: as) ++ (g ++ ')' :: u) =
        g₁ ++ ',' :: (g₂ ++ a.text ++ Element.written as ++ (g ++ ')' :: u)) := by
      simp [Element.written, hlead]
    rw [hwritten]
    exact wordEnd_gap hg₁ (by decide) _

/-- The parameters after the first one. -/
theorem parameters_items (hw : w.rules = table) {as : List (Element Parameter)} {g : List Char}
    (hc : c.Spans (Element.written as) d) (hp : Element.Placed Comma c.offset as)
    (has : ∀ a ∈ as, ParameterText w.fileIndex a.start a.text a.value) (hg : Gap g) (hs : d.Spans g d')
    (hclose : d'.Spans [')'] d'') (ps : List Parameter) :
    Derives w blanks (.items (ofUnits functionRule) (.call (callAt "Parameter" "Parameter" 0)) (.char ',')
      (signatureOf t id o ps)) c (.hit (signatureOf t id o (ps ++ as.map (·.value))) d) := by
  induction as generalizing c ps with
  | nil =>
    obtain rfl := hc.unique .rfl
    rw [List.map_nil, List.append_nil]
    exact .items_end ((over_spans hg hs hclose (by decide) (by decide)).skips hw _)
      (.char_of_head (by rw [spans_head hclose]; decide))
  | cons a as ih =>
    obtain ⟨⟨g₁, g₂, hg₁, hg₂, hlead⟩, hstart, hplaced⟩ := hp
    obtain ⟨c₄, hc₄, hrest⟩ := Cursor.spans_append.1 (show c.Spans (a.lead ++ a.text ++ Element.written as) d from hc)
    obtain ⟨c₃, hc₃, htext⟩ := Cursor.spans_append.1 hc₄
    rw [← hc₃.offset] at hstart
    rw [hlead] at hc₃
    obtain ⟨c₂, hc₂, hs₂⟩ := Cursor.spans_append.1 hc₃
    obtain ⟨c₁, hs₁, hcomma⟩ := Cursor.spans_append.1 hc₂
    have htextual := has a List.mem_cons_self
    have hend : WordEnd c₄.rest := by
      rw [hrest.rest, hs.rest, hclose.rest]
      exact wordEnd_parameters hplaced hg
    rw [hstart, ← htext.offset] at hplaced
    have hitem := parameter_call t id o hw ps (htextual.part hw htext hstart.symm hend)
    have hitems := ih hrest hplaced (fun b hb => has b (List.mem_cons_of_mem _ hb)) (ps ++ [a.value])
    rw [List.append_assoc] at hitems
    refine .items_hit ((over_spans hg₁ hs₁ hcomma (by decide) (by decide)).skips hw _) (.char_of_spans hcomma)
      (skip_gap hw hg₂ hs₂ ?_ _) hitem hitems
    rw [htext.rest]
    exact htextual.solid _

/-- Where the parentheses close, there is no parameter. -/
theorem parameter_miss (hw : w.rules = table) (h : NoWord c.rest) : Misses w blanks "Parameter" [] c := by
  have htype : Misses w blanks "TypeExpr" [] c :=
    type_miss hw fun y e hy he hend => (firstWord_of_noWord (P := fun _ => False) h y e.rest hy he.rest hend).elim
  exact misses_of hw table_parameter rfl (.act_miss (.seq_first (htype.call rfl rfl rfl)))

theorem ParametersText.steps (hw : w.rules = table) {ps : List Parameter} {g : List Char} {start : Nat}
    (h : ParametersText w.fileIndex o x ps) (hc : c.Spans x d) (ho : c.offset = o) (hg : Gap g) (hs : d.Spans g d')
    (hclose : d'.Spans [')'] d'') : Steps w (ofUnits functionRule)
      (.list (.call (callAt "Parameter" "Parameter" 0)) (.char ',')) (signatureOf t id start []) c
      (signatureOf t id start ps) d := by
  cases h with
  | mk hfirst ho' hp has =>
    obtain ⟨c₁, hx, hmore⟩ := Cursor.spans_append.1 hc
    have hword : WordEnd c₁.rest := by
      rw [hmore.rest, hs.rest, hclose.rest]
      exact wordEnd_parameters hp hg
    rw [ho', ← ho, ← hx.offset] at hp
    have hpart := hfirst.part hw hx ho hword
    refine ⟨.list_hit (parameter_call _ _ _ hw [] hpart) (parameters_items hw hmore hp has hg hs hclose [_]), ?_⟩
    have := hpart.moves
    have := hx.offset
    have := hmore.offset
    omega

theorem ParametersText.solid {ps : List Parameter} {f : Nat} (h : ParametersText f o x ps) (t : List Char) :
    Solid (x ++ t) := by
  cases h with
  | mk h =>
    rw [List.append_assoc]
    exact h.solid _

theorem Says.block_part (hw : w.rules = table) {items : List Statement} {span : Span}
    (h : Says w.fileIndex o x (.compound items span)) (hc : c.Spans x d) (ho : c.offset = o) :
    Part w "Compound" [] c (.statement (.compound items span)) d := by
  generalize hs : Statement.compound items span = s at h
  cases h with
  | compound ho₁ hp has hg =>
    subst ho
    cases hs
    rw [spanAt_eq hc]
    exact Cminor.block_part hw ho₁ hp has hg (fun a ha _ _ => (has a ha).part hw) hc
  | body h => cases h <;> cases hs
  | _ => cases hs

theorem FunctionText.part (hw : w.rules = table) {fn : FunctionDef} (h : FunctionText w.fileIndex o x fn)
    (hc : c.Spans x d) (ho : c.offset = o) : Part w "Function" [] c (.function fn) d := by
  cases h with
  | @mk _ _ _ g _ _ _ _ t id ps items span hdecl hg ho₁ hp hg₁ hg₂ ho₂ hb =>
    obtain ⟨c₇, hc₇, hbody⟩ := Cursor.spans_append.1 hc
    obtain ⟨c₆, hc₆, hs₂⟩ := Cursor.spans_append.1 hc₇
    obtain ⟨c₅, hc₅, hclose⟩ := Cursor.spans_append.1 hc₆
    obtain ⟨c₄, hc₄, hs₁⟩ := Cursor.spans_append.1 hc₅
    obtain ⟨c₃, hc₃, hparams⟩ := Cursor.spans_append.1 hc₄
    obtain ⟨c₂, hc₂, hopen⟩ := Cursor.spans_append.1 hc₃
    obtain ⟨c₁, hdeclared, hs⟩ := Cursor.spans_append.1 hc₂
    subst ho
    have hend : WordEnd c₁.rest := by
      rw [hs.rest, hopen.rest]
      exact wordEnd_gap hg (by decide) _
    obtain ⟨e₁, e₂, htype, hover, hname⟩ := hdecl.parts hw hdeclared rfl hend
    have hover₁ := over_spans hg₁ hs₁ hclose (by decide) (by decide)
    have hhead : Steps w (ofUnits functionRule) (.seq (.seq (.call (callAt "ReturnType" "TypeExpr" 0))
        (.call (callAt "Identifier" "Identifier" 0))) (.char '(')) ⟨[], none, c.offset⟩ c
        (signatureOf t id c.offset []) c₃ :=
      ((Steps.call (k := callAt "ReturnType" "TypeExpr" 0) hw table_type rfl htype rfl rfl rfl).next hw hover
        (.call (k := callAt "Identifier" "Identifier" 0) hw table_name rfl hname rfl rfl rfl)).next hw
        (over_spans hg hs hopen (by decide) (by decide)) (.char hopen)
    have hsignature : Steps w (ofUnits functionRule) (.seq (.seq (.seq (.call (callAt "ReturnType" "TypeExpr" 0))
        (.call (callAt "Identifier" "Identifier" 0))) (.char '('))
        (.opt (.list (.call (callAt "Parameter" "Parameter" 0)) (.char ',')))) ⟨[], none, c.offset⟩ c
        (signatureOf t id c.offset (ps.getD [])) c₄ := by
      cases hp with
      | none =>
        obtain rfl := hparams.unique .rfl
        refine hhead.without hw hover₁ (.list_miss ((parameter_miss hw ?_).call rfl rfl rfl))
        rw [hclose.rest]
        rintro _ ⟨⟩
        decide
      | some hg' ho' hp =>
        obtain ⟨e₃, hs', hlist⟩ := Cursor.spans_append.1 hparams
        exact hhead.next hw (.of_solid hg' hs' (by rw [hlist.rest]; exact hp.solid _))
          (.opt (hp.steps hw hlist (by rw [hs'.offset, hc₃.offset, ← ho₁, ← ho']) hg₁ hs₁ hclose))
    have hblock := hb.block_part hw hbody (by rw [hc₇.offset, ho₂])
    have hsteps := (hsignature.next hw hover₁ (.expect (.char hclose))).next hw
      (.of_solid hg₂ hs₂ (by rw [hbody.rest]; exact hb.solid _))
      (.expect (.call (k := ⟨"Body", "CompoundStatement", 0, some (idOf "Compound")⟩) hw table_compound rfl hblock rfl rfl rfl))
    obtain ⟨ctx, haction⟩ := function_signatureOf t id c.offset (ps.getD []) (.compound items span) (w.matched c d)
    rw [spanAt_eq hc]
    exact Steps.part function hw table_function rfl rfl rfl hsteps (congrArg Prod.fst haction)
      (congrArg (·.2.value) haction)

/-! ## Compile units are read -/

theorem gathers_functions : Gathers (ofUnits unitRule) (callAt "Function" "Function" 0) "Function" "functions" :=
  ⟨rfl, ⟨_, table_function, rfl⟩, ⟨rfl, fun _ => rfl⟩, fun _ _ => rfl⟩

/-- No function begins at the end of the text. -/
theorem function_end (hw : w.rules = table) (hc : c.rest = []) (ctx : Context Value) :
    Derives w blanks (.pattern (ofUnits unitRule) (.call (callAt "Function" "Function" 0)) ctx) c (.miss ctx) := by
  have hno : NoWord c.rest := by rw [hc]; rintro _ ⟨⟩
  have htype : Misses w blanks "TypeExpr" [] c :=
    type_miss hw fun y e hy he hend => (firstWord_of_noWord (P := fun _ => False) hno y e.rest hy he.rest hend).elim
  have hmiss : Misses w blanks "Function" [] c :=
    misses_of hw table_function rfl (.act_miss (.seq_first (.seq_first (.seq_first (.seq_first (.seq_first
      (htype.call rfl rfl rfl)))))))
  exact hmiss.call rfl rfl rfl

/-- The rounds are over where nothing but a gap is left. -/
theorem functions_end (hw : w.rules = table) (hd : afterGap d.rest = some []) (ctx : Context Value) :
    Derives w blanks (.rounds (ofUnits unitRule) (.call (callAt "Function" "Function" 0)) false ctx) d (.hit ctx d) := by
  by_cases hnil : d.rest = []
  · exact .rounds_end hnil
  · obtain ⟨e, hs, hrest⟩ := skip_rest hw hd ctx
    exact .rounds_miss hnil hs (function_end hw hrest ctx)

theorem unit_action {fns : List FunctionDef} (hctx : Keeps ctx "functions" .function fns) (m : Matched) :
    Units.unit ctx m = (true, (ctx.take "functions").2.setValue (.compileUnit ⟨m.file, fns, m.span⟩)) := by
  rw [Units.unit, hctx.taken fun _ => rfl]

theorem UnitText.yields (hw : w.rules = table) {u : CompileUnit} (h : UnitText w.fileIndex w.file o x u) (hc : c.Spans x d)
    (ho : c.offset = o) (hd : afterGap d.rest = some []) (hsolid : Solid c.rest) :
    Yields w blanks "CompileUnit" [] c (.compileUnit u) d := by
  have hempty : Keeps (⟨[], none, c.offset⟩ : Context Value) "functions" Value.function [] := .inr ⟨rfl, rfl⟩
  subst ho
  cases h with
  | empty =>
    obtain rfl := hc.unique .rfl
    have hnil : d.rest = [] := Option.some.inj (hsolid.symm.trans hd)
    refine yields_of hw table_unit rfl (.act_true Units.unit rfl (.many (.rounds_end hnil)) (unit_action hempty _)) ?_
    rfl
  | functions h ho' hp has =>
    obtain ⟨c₁, hfirst, hmore⟩ := Cursor.spans_append.1 hc
    rw [ho', ← hfirst.offset] at hp
    have hrow : Row w "Function" .function c₁ _ d := .of_elements (fun _ => True) hp hmore
      (fun a ha c d hc ho _ => (has a ha).part hw hc ho) (fun a ha => (has a ha).solid) (fun _ _ _ _ _ => trivial) trivial
    obtain ⟨ctx', hctx', hstart, hmany⟩ := hrow.many gathers_functions hw (h.part hw hfirst rfl)
      (functions_end hw hd) hempty
    rw [spanAt_eq hc]
    exact yields_of hw table_unit rfl (.act_true Units.unit rfl hmany.derives (unit_action hctx' _)) rfl

/-! ## What is read is a text of the grammar -/

theorem declared_sound (hw : w.rules = table) (hp : rule.preCall? label = none)
    (hname : ∀ {ctx ctx' : Context Value} {c d : Cursor}, Derives w blanks (.pattern rule b ctx) c (.hit ctx' d) →
      ∃ y, isName y = true ∧ c.Spans y d ∧ WordEnd d.rest)
    (h : Derives w blanks (.pattern rule (.seq (.call (callAt label "TypeExpr" 0)) b) ctx) c (.hit ctx₁ d)) :
    ∃ x t id, DeclaredText w.fileIndex c.offset x t id ∧ c.Spans x d ∧ WordEnd d.rest := by
  obtain ⟨x, t, g, y, hx, hg, hsep, hy, hspan, hend⟩ := declared_inv hw hp hname h
  exact ⟨_, t, _, .mk hx hg hsep hy rfl, hspan, hend⟩

theorem parameter_inv (hw : w.rules = table)
    (h : Derives w blanks (.pattern (ofUnits functionRule) (.call (callAt "Parameter" "Parameter" 0)) ctx) c (.hit ctx₁ d)) :
    ∃ x p, ParameterText w.fileIndex c.offset x p ∧ c.Spans x d := by
  obtain ⟨v, -, ctx₂, -, hy⟩ := yields_of_call hw table_parameter rfl rfl h
  obtain ⟨ctx₃, h, -⟩ := Derives.act_inv rfl (Derives.rule_inv (hw ▸ table_parameter) hy)
  obtain ⟨x, t, id, hx, hspan, -⟩ := declared_sound hw rfl (fun h => name_call_inv hw rfl (Derives.expect_inv h)) h
  exact ⟨x, _, .mk hx, hspan⟩

theorem parameters_inv (hw : w.rules = table)
    (h : Derives w blanks (.pattern (ofUnits functionRule) (.list (.call (callAt "Parameter" "Parameter" 0)) (.char ','))
      ctx) c (.hit ctx₁ d)) : ∃ x ps, ParametersText w.fileIndex c.offset x ps ∧ c.Spans x d := by
  cases h with
  | @list_hit _ _ _ _ _ _ _ c₁ _ hfirst hitems =>
    obtain ⟨x, p, hx, hspan⟩ := parameter_inv hw hfirst
    obtain ⟨as, hp, has, hmore⟩ : ∃ as, Element.Placed Comma c₁.offset as ∧
        (∀ a ∈ as, ParameterText w.fileIndex a.start a.text a.value) ∧ c₁.Spans (Element.written as) d := by
      refine Derives.items_rec (M := fun _ c₁ => ∃ as, Element.Placed Comma c₁.offset as ∧
        (∀ a ∈ as, ParameterText w.fileIndex a.start a.text a.value) ∧ c₁.Spans (Element.written as) d) hitems ?_ ?_
      · exact fun _ => ⟨[], trivial, fun _ h => absurd h List.not_mem_nil, .rfl⟩
      · intro ctx ctx₁ ctx₂ c c₁ c₂ c₃ c₄ hs hcomma hs' hitem hrest
        obtain ⟨-, hcomma⟩ := Derives.char_inv hcomma
        obtain ⟨g, hg, hgap, -⟩ := gap_of_skip hw hs (by rw [hcomma.rest]; exact List.cons_ne_nil _ _)
        obtain ⟨y, q, hy, hyspan⟩ := parameter_inv hw hitem
        obtain ⟨g', hg', hgap', -⟩ := gap_of_skip hw hs' (by
          rw [hyspan.rest]
          cases hy with
          | mk hy => simp [hy.nonempty])
        obtain ⟨as, hp, has, hmore⟩ := hrest
        have hlead := (hgap.trans hcomma).trans hgap'
        refine ⟨⟨_, c₃.offset, y, q⟩ :: as, ⟨⟨g, g', hg, hg', rfl⟩, hlead.offset, ?_⟩,
          List.forall_mem_cons.2 ⟨hy, has⟩, (hlead.trans hyspan).trans hmore⟩
        rw [← hyspan.offset]
        exact hp
    exact ⟨_, _, .mk hx hspan.offset hp has, hspan.trans hmore⟩

theorem advances_parameters (hw : w.rules = table) :
    Advances w (ofUnits functionRule) (.list (.call (callAt "Parameter" "Parameter" 0)) (.char ',')) := by
  refine ⟨fun {ctx ctx' c d} h => ?_⟩
  obtain ⟨x, ps, hx, hspan⟩ := parameters_inv hw h
  cases hx with
  | mk hx =>
    cases hx with
    | mk hx => exact Spans.moves hspan (by simp [hx.nonempty])

theorem advances_body (hw : w.rules = table) : Advances w (ofUnits functionRule)
    (.call ⟨"Body", "CompoundStatement", 0, some (idOf "Compound")⟩) :=
  .call hw table_compound rfl rfl (.first (.first (.act rfl (.char _))))

theorem function_inv (hw : w.rules = table)
    (h : Derives w blanks (.pattern (ofUnits unitRule) (.call (callAt "Function" "Function" 0)) ctx) c (.hit ctx₁ d)) :
    ∃ x fn, FunctionText w.fileIndex c.offset x fn ∧ c.Spans x d := by
  obtain ⟨v, -, ctx₂, -, hy⟩ := yields_of_call hw table_function rfl rfl h
  obtain ⟨ctx₃, h, -⟩ := Derives.act_inv rfl (Derives.rule_inv (hw ▸ table_function) hy)
  obtain ⟨ctx₄, c₆, c₇, h, ⟨g₂, hg₂, hs₂, -⟩, hbody⟩ := seq_next_inv hw (.expect (advances_body hw)) h
  obtain ⟨ctx₅, c₃, c₄, c₅, p, ps, g₁, h, hp, hpspan, hg₁, hs₁, hclose⟩ :=
    optional_inv hw (advances_parameters hw) (fun h _ _ => parameters_inv hw h) h
  obtain ⟨ctx₆, c₁, c₂, h, ⟨g, hg, hs, -⟩, hopen⟩ := seq_next_inv hw (.char '(') h
  obtain ⟨-, hopen⟩ := Derives.char_inv hopen
  obtain ⟨x, t, id, hx, hxspan, -⟩ := declared_sound hw rfl (name_call_inv hw rfl) h
  obtain ⟨v', -, hbody⟩ := yields_of_call hw table_compound rfl rfl (Derives.expect_inv hbody)
  obtain ⟨y, items, span, hy, hyspan⟩ := compound_sound hw (fun c' _ => sound_statement hw c') hbody
  have hbegin := (hxspan.trans hs).trans hopen
  have hupto := (((hbegin.trans hpspan).trans hs₁).trans hclose).trans hs₂
  exact ⟨_, _, .mk hx hg hbegin.offset hp hg₁ hg₂ hupto.offset hy, hupto.trans hyspan⟩

/-- The functions of a compile unit, from some place on. -/
theorem functions_inv (hw : w.rules = table) {first : Bool}
    (h : Derives w blanks (.rounds (ofUnits unitRule) (.call (callAt "Function" "Function" 0)) first ctx) c (.hit ctx₁ d)) :
    ∃ as, Element.Placed Gap c.offset as ∧ (∀ a ∈ as, FunctionText w.fileIndex a.start a.text a.value) ∧
      c.Spans (Element.written as) d ∧ (first = true → ∀ a as', as = a :: as' → a.lead = []) := by
  refine Derives.rounds_rec (M := fun first _ c => ∃ as, Element.Placed Gap c.offset as ∧
    (∀ a ∈ as, FunctionText w.fileIndex a.start a.text a.value) ∧ c.Spans (Element.written as) d ∧
    (first = true → ∀ a as', as = a :: as' → a.lead = [])) h ?_ ?_ ?_
  · exact fun _ _ => ⟨[], trivial, fun _ h => absurd h List.not_mem_nil, .rfl, fun _ _ _ h => nomatch h⟩
  · exact fun _ _ _ _ _ _ => ⟨[], trivial, fun _ h => absurd h List.not_mem_nil, .rfl, fun _ _ _ h => nomatch h⟩
  · intro first ctx ctx₁ c c₁ c₂ _ hskip hitem hmore
    obtain ⟨x, fn, hx, hspan⟩ := function_inv hw hitem
    obtain ⟨as, hp, has, hwritten, -⟩ := hmore
    obtain ⟨g, hg, hs, hlead⟩ : ∃ g, Gap g ∧ c.Spans g c₁ ∧ (first = true → g = []) := by
      cases first with
      | true =>
        cases hskip
        exact ⟨[], .nil, .rfl, fun _ => rfl⟩
      | false =>
        obtain ⟨g, hg, hs, -⟩ := gap_of_skip hw hskip (by rw [hspan.rest]; simp [hx.nonempty])
        exact ⟨g, hg, hs, nofun⟩
    refine ⟨⟨g, c₁.offset, x, fn⟩ :: as, ⟨hg, hs.offset, ?_⟩, List.forall_mem_cons.2 ⟨hx, has⟩,
      (hs.trans hspan).trans hwritten, ?_⟩
    · rw [← hspan.offset]
      exact hp
    · rintro hfirst _ _ ⟨⟩
      exact hlead hfirst

theorem unit_inv (hw : w.rules = table) (h : Yields w blanks "CompileUnit" [] c v d) :
    ∃ x u, UnitText w.fileIndex w.file c.offset x u ∧ c.Spans x d := by
  obtain ⟨ctx, -, h⟩ := h
  obtain ⟨ctx₁, h, -⟩ := Derives.act_inv rfl (Derives.rule_inv (hw ▸ table_unit) h)
  obtain ⟨as, hp, has, hspan, hlead⟩ := functions_inv hw (Derives.many_inv h)
  cases as with
  | nil => exact ⟨_, _, .empty, hspan⟩
  | cons a as =>
    obtain ⟨-, hstart, hp⟩ := hp
    have hnil := hlead rfl a as rfl
    rw [hnil] at hstart
    obtain ⟨hfirst, has⟩ := List.forall_mem_cons.1 has
    rw [show a.start = c.offset from hstart] at hfirst hp
    refine ⟨_, _, .functions hfirst rfl hp has, ?_⟩
    have hwritten : Element.written (a :: as) = a.text ++ Element.written as := by simp [Element.written, hnil]
    rwa [hwritten] at hspan

end

/-- What a source is if it parses as a compile unit. -/
theorem parseCompileUnit_eq_ok_iff {source file : String} {fileIndex : Nat} {u : CompileUnit} :
    parseCompileUnit source fileIndex file = .ok u ↔ ∃ lead x trail, source.toList = lead ++ x ++ trail ∧
      afterGap source.toList = some (x ++ trail) ∧ UnitText fileIndex file (Text.byteLength lead) x u ∧
      afterGap trail = some [] := by
  refine parseFile_eq_ok_iff.trans ⟨?_, ?_⟩
  · rintro ⟨v, hv, c, ctx, d, last, hskip, hrule, hvalue, hskip', hlast⟩
    have hy : Yields (world fileIndex file) blanks "CompileUnit" [] c v d := ⟨ctx, hvalue, hrule⟩
    obtain ⟨x, u', hx, hspan⟩ := unit_inv rfl hy
    have hafter : afterGap source.toList = some c.rest := afterGap_of_skip rfl hskip
    have htrail : afterGap d.rest = some [] := by rw [afterGap_of_skip rfl hskip', hlast]
    obtain ⟨lead, hlead⟩ := hskip.spans
    obtain ⟨rfl, -⟩ := hy.unique (hx.yields rfl hspan rfl htrail (passGap_solid hafter))
    obtain rfl : u' = u := Option.some.inj hv
    refine ⟨lead, x, d.rest, (hlead.trans hspan).rest, ?_, ?_, htrail⟩
    · rw [hafter, hspan.rest]
    · have hoffset : c.offset = Text.byteLength lead := by rw [hlead.offset]; exact Nat.zero_add _
      rw [← hoffset]
      exact hx
  · rintro ⟨lead, x, trail, hsource, hafter, hx, htrail⟩
    have hlead : (⟨0, source.toList⟩ : Cursor).Spans lead ⟨Text.byteLength lead, x ++ trail⟩ :=
      ⟨by rw [hsource, List.append_assoc], (Nat.zero_add _).symm⟩
    obtain ⟨ctx, hvalue, hrule⟩ := hx.yields (w := world fileIndex file) rfl
      (exists_cursor (Text.byteLength lead) x trail) rfl htrail (passGap_solid hafter)
    obtain ⟨last, hskip', hlast⟩ := skip_rest (w := world fileIndex file)
      (c := ⟨Text.byteLength lead + Text.byteLength x, trail⟩) rfl htrail .empty
    exact ⟨.compileUnit u, rfl, _, ctx, _, last, skip_of_afterGap rfl hlead .empty hafter, hrule, hvalue, hskip', hlast⟩

end PegFront.Cminor
