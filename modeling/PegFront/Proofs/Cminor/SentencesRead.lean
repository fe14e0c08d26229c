import PegFront.Proofs.Cminor.Sentences

/-!
# Statements are read

The rule for statements reads every text of the grammar of statements as its tree, wherever no `else` follows that
the statement would take (`Says.part`).
-/

namespace PegFront.Cminor

open Statements

section
variable {w : World Value} {c c₁ c₂ d d' : Cursor} {o : Nat} {g x : List Char} {e : Expr} {s : Statement}
  {t : TypeExpr} {ch : Char}

/-! ## Parts -/

theorem Over.of_solid (hg : Gap g) (hs : c.Spans g d) (hd : Solid d.rest) : Over c d := ⟨g, hg, hs, hd⟩

theorem spans_head (hc : c.Spans (ch :: x) d) : c.rest.head? = some ch := by rw [hc.rest]; rfl

/-- A gap before a char that stands apart from gaps. -/
theorem over_spans (hg : Gap g) (hs : c.Spans g c₁) (hc : c₁.Spans (ch :: x) d) (hb : Text.isBlank ch = false)
    (hch : ch ≠ '/') : Over c c₁ :=
  over_char hg hs (spans_head hc) hb hch

theorem Enclosed.condition (hw : w.rules = table) (h : Enclosed w.fileIndex o x e) (hc : c.Spans x d)
    (ho : c.offset = o) : Condition w c e d := by
  cases h with
  | mk hg ho' h hg' =>
    obtain ⟨c₄, hc, hclose⟩ := Cursor.spans_append.1 hc
    obtain ⟨c₃, hc, hs'⟩ := Cursor.spans_append.1 hc
    obtain ⟨c₂, hc, hx⟩ := Cursor.spans_append.1 hc
    obtain ⟨c₁, hopen, hs⟩ := Cursor.spans_append.1 hc
    have hover := over_spans hg' hs' hclose (by decide) (by decide)
    refine ⟨c₁, c₂, c₃, c₄, hopen, .of_solid hg hs ?_, ?_, hover, hclose⟩
    · rw [hx.rest]
      exact h.solid _
    · exact h.part hw hx (by rw [hc.offset, ho, ho']) (hover.closes (spans_head hclose) (.inl rfl)).ends

theorem Enclosed.over (h : Enclosed w.fileIndex o x e) (hg : Gap g) (hs : c.Spans g c₁) (hc : c₁.Spans x d) : Over c c₁ := by
  obtain ⟨y, rfl⟩ := h.head
  exact over_spans hg hs hc (by decide) (by decide)

/-- What may be left out is read, or misses. -/
theorem Optionally.maybe {α : Type} {R : Nat → List Char → α → Prop} {into : α → Value} {v : Option α} {name : String}
    {args : List Value} (h : Optionally R o x v) (hc : c.Spans x d) (ho : c.offset = o) (hover : Over d d')
    (hsolid : ∀ {o x a t}, R o x a → Solid (x ++ t))
    (hpart : ∀ {c x a}, R c.offset x a → c.Spans x d → Part w name args c (into a) d)
    (hmiss : Misses w blanks name args d') : Maybe w name args c d (v.map into) := by
  cases h with
  | none => exact ⟨hc.unique .rfl, d', (hc.unique .rfl) ▸ hover, hmiss⟩
  | some hg ho' h =>
    obtain ⟨c₁, hs, hx⟩ := Cursor.spans_append.1 hc
    rw [ho', ← ho, ← hs.offset] at h
    refine ⟨c₁, .of_solid hg hs ?_, hpart h hx⟩
    rw [hx.rest]
    exact hsolid h

/-! ## Types -/

theorem TypeText.read (hw : w.rules = table) (h : TypeText w.fileIndex o x t) : ∀ {c d : Cursor}, c.Spans x d →
    c.offset = o → (t.isArray = true ∨ WordEnd d.rest ∧ ∀ u, d.rest = '.' :: u → NoWord u) → TypeRead w c t d := by
  have hword : ∀ {g u : List Char}, Gap g → WordEnd (g ++ '[' :: u) ∧ ∀ v, g ++ '[' :: u = '.' :: v → NoWord v := by
    intro g u hg
    refine ⟨wordEnd_gap hg (by decide) _, fun v hv => ?_⟩
    cases g with
    | nil => cases hv
    | cons ch g =>
      cases hv
      exact absurd (hg.head '.' rfl) (by decide)
  induction h with
  | basic b =>
    rintro c d hc rfl hd
    rw [spanAt_eq hc]
    exact typed_basic hw b hc (hd.resolve_left Bool.false_ne_true).1
  | named h =>
    rintro c d hc rfl hd
    obtain ⟨hend, hdot⟩ := hd.resolve_left Bool.false_ne_true
    rw [spanAt_eq hc]
    exact typed_named hw h hc hend hdot
  | array h hg hg' ih =>
    rintro c d hc rfl -
    obtain ⟨c₄, hc₄, hclose⟩ := Cursor.spans_append.1 hc
    obtain ⟨c₃, hc₃, hs'⟩ := Cursor.spans_append.1 hc₄
    obtain ⟨c₂, hc₂, hopen⟩ := Cursor.spans_append.1 hc₃
    obtain ⟨c₁, hx, hs⟩ := Cursor.spans_append.1 hc₂
    have hnext := hword (u := c₃.rest) hg
    rw [show _ ++ '[' :: c₃.rest = c₁.rest by rw [hs.rest, hopen.rest]; rfl] at hnext
    rw [spanAt_eq hc]
    exact typed_array hw (ih hx rfl (.inr hnext)) (over_spans hg hs hopen (by decide) (by decide)) hopen
      (over_spans hg' hs' hclose (by decide) (by decide)) hclose

/-- A type before a name. -/
theorem TypeText.part (hw : w.rules = table) (h : TypeText w.fileIndex o x t) (hc : c.Spans x c₁) (ho : c.offset = o)
    (hg : Gap g) (hsep : t.isArray = true ∨ g ≠ []) (hs : c₁.Spans g c₂) {y : List Char} (hy : isName y = true)
    (hname : c₂.Spans y d) : Part w "TypeExpr" [] c (.type t) c₁ ∧ Over c₁ c₂ := by
  obtain ⟨ch, u, rfl, hch⟩ := head_of_isName hy
  have hopen : isOpening ch = true := by simp [isOpening, hch]
  have hsolid : Solid c₂.rest := by
    rw [hname.rest]
    exact solid_cons (isOpening_apart hopen).1 (isOpening_apart hopen).2.1 _
  have hdot : ∀ v, c₁.rest = '.' :: v → NoWord v := by
    rw [hs.rest, hname.rest]
    intro v hv
    cases g with
    | nil =>
      cases hv
      exact absurd hch (by decide)
    | cons ch' g =>
      cases hv
      exact absurd (hg.head '.' rfl) (by decide)
  have hread := h.read hw hc ho <| (set_off (y := ch :: u) (u := d.rest) hg hsep).imp_right fun hend =>
    ⟨by rwa [hs.rest, hname.rest], hdot⟩
  obtain ⟨ch', u', rfl, -⟩ := h.head
  refine ⟨⟨typed_done hw hread (r := c₂.rest) (by rw [hs.rest]; exact hg _ hsolid) ?_, Spans.moves hc (by simp)⟩,
    .of_solid hg hs hsolid⟩
  rw [hname.rest]
  rintro v ⟨⟩
  exact absurd hch (by decide)

/-! ## Before a semicolon -/

/-- Which of the bodies reads a statement; those before it miss. -/
inductive BodyRead (w : World Value) (c : Cursor) (s : Statement) (d : Cursor) : Prop
  | construction (hs : s.isConstruction = true) (h : Part w "ConstructionBody" [] c (.statement s) d)
  | assignment (hc : Misses w blanks "ConstructionBody" [] c) (h : Part w "AssignmentBody" [] c (.statement s) d)
  | expression (hc : Misses w blanks "ConstructionBody" [] c) (ha : Misses w blanks "AssignmentBody" [] c)
      (h : Part w "ExpressionBody" [] c (.statement s) d)

theorem BodyRead.forInit (hw : w.rules = table) (h : BodyRead w c s d) : Part w "ForInit" [] c (.statement s) d := by
  cases h with
  | construction _ h => exact ⟨chooses_forInit.first hw [] rfl (by simp) h.yields, h.moves⟩
  | assignment hc h => exact ⟨chooses_forInit.first hw ["ConstructionBody"] rfl (by simpa using hc) h.yields, h.moves⟩
  | expression hc ha h =>
    exact ⟨chooses_forInit.first hw ["ConstructionBody", "AssignmentBody"] rfl (by simpa using ⟨hc, ha⟩) h.yields, h.moves⟩

theorem BodyRead.forStep (hw : w.rules = table) (h : BodyRead w c s d) (hs : s.isConstruction = false) :
    Part w "ForStep" [] c (.statement s) d := by
  cases h with
  | construction hs' => cases hs.symm.trans hs'
  | assignment _ h => exact ⟨chooses_forStep.first hw [] rfl (by simp) h.yields, h.moves⟩
  | expression _ ha h => exact ⟨chooses_forStep.first hw ["AssignmentBody"] rfl (by simpa using ha) h.yields, h.moves⟩

theorem BodyRead.statement (hw : w.rules = table) (h : BodyRead w c s d)
    (hbefore : ∀ n ∈ "Compound" :: led, Misses w blanks n [] c) (ho : Over d d') {d'' : Cursor} (hstop : d'.Spans [';'] d'') :
    Part w "Statement" [] c (.statement (s.extendTo d''.offset)) d'' := by
  cases h with
  | construction _ h => exact statement_part hw ("Compound" :: led) rfl hbefore (terminates_construction.part hw h ho hstop)
  | assignment hc h =>
    refine statement_part hw ("Compound" :: led ++ ["Construction"]) rfl ?_ (terminates_assignment.part hw h ho hstop)
    exact List.forall_mem_append.2 ⟨hbefore, by simpa using terminates_construction.miss hw hc⟩
  | expression hc ha h =>
    refine statement_part hw ("Compound" :: led ++ ["Construction", "Assignment"]) rfl ?_
      (terminates_expression.part hw h ho hstop)
    exact List.forall_mem_append.2 ⟨hbefore,
      by simpa using ⟨terminates_construction.miss hw hc, terminates_assignment.miss hw ha⟩⟩

theorem Assigned.part (hw : w.rules = table) (h : Assigned w.fileIndex o x e) (hc : c.Spans x d) (ho : c.offset = o)
    (hd : Ends 0 d.rest) : ∃ c₁ c₂, c.Spans ['='] c₁ ∧ c₁.rest.head? ≠ some '=' ∧ Over c₁ c₂ ∧
      Part w "Expression" [.mode {}] c₂ (.expr e) d := by
  cases h with
  | mk hg ho' h =>
    obtain ⟨c₂, hc₂, hx⟩ := Cursor.spans_append.1 hc
    obtain ⟨c₁, hsign, hs⟩ := Cursor.spans_append.1 hc₂
    refine ⟨c₁, c₂, hsign, ?_, .of_solid hg hs (by rw [hx.rest]; exact h.solid _),
      h.part hw hx (by rw [hc₂.offset, ho, ho']) hd⟩
    rw [hs.rest, hx.rest, ← List.append_assoc]
    exact fun hhead => (h.alone hg d.rest '=' hhead).1 rfl

theorem BodyText.read (hw : w.rules = table) (h : BodyText w.fileIndex o x s) (hc : c.Spans x d) (ho : c.offset = o)
    (hover : Over d d') (hd : d'.rest.head? = some ch) (hch : ch = ')' ∨ ch = ';') : BodyRead w c s d := by
  have hcloses := hover.closes hd hch
  cases h with
  | construction hx hg hsep hy ho₁ ho₂ hi =>
    obtain ⟨c₃, hc₃, hinit⟩ := Cursor.spans_append.1 hc
    obtain ⟨c₂, hc₂, hname⟩ := Cursor.spans_append.1 hc₃
    obtain ⟨c₁, htype, hs⟩ := Cursor.spans_append.1 hc₂
    obtain ⟨hpart, hover'⟩ := hx.part hw htype ho hg hsep hs hy hname
    subst ho
    rw [ho₁, ← hc₂.offset, spanAt_eq hname, spanAt_eq hc]
    refine .construction rfl ?_
    cases hi with
    | none =>
      obtain rfl := hinit.unique .rfl
      refine construction_part hw hpart hover' hy hname hcloses.breaks.word hover ?_
      rw [hd]
      rcases hch with rfl | rfl <;> decide
    | some hg' ho' h =>
      obtain ⟨c₄, hs', hassigned⟩ := Cursor.spans_append.1 hinit
      obtain ⟨c₅, c₆, hsign, -, hover'', hvalue⟩ := h.part hw hassigned
        (by rw [hs'.offset, hc₃.offset, ho', ho₂]) hcloses.ends
      refine construction_init_part hw hpart hover' hy hname ?_ (over_spans hg' hs' hsign (by decide) (by decide)) hsign
        hover'' hvalue
      rw [hs'.rest, hsign.rest]
      exact wordEnd_gap hg' (by decide) _
  | @assignment _ y g z _ _ hx hg ho₁ hy =>
    obtain ⟨c₂, hc₂, hassigned⟩ := Cursor.spans_append.1 hc
    obtain ⟨c₁, htarget, hs⟩ := Cursor.spans_append.1 hc₂
    obtain ⟨c₃, c₄, hsign, hno, hover', hvalue⟩ := hy.part hw hassigned (by rw [hc₂.offset, ho, ho₁]) hcloses.ends
    have hrest : c₁.rest = g ++ '=' :: c₃.rest := by rw [hs.rest, hsign.rest]; rfl
    have hbreaks : Breaks c₁.rest := by
      rw [hrest]
      exact breaks_char hg (solid_cons (by decide) (by decide) _) (by decide) (by decide)
    have hends : Ends 8 c₁.rest := by
      rw [hrest]
      exact ends_char hg (by decide) (by decide) (by decide) (fun op _ => Nat.lt_trans op.level_lt (by decide)) (by decide)
    have hread : Part w "Postfix" [.mode ⟨true⟩] c (.expr _) c₁ :=
      ⟨(hx.read hw htarget ho).level hends, Spans.moves htarget hx.nonempty⟩
    subst ho
    rw [spanAt_eq hc]
    exact .assignment (hx.beginning.construction_miss hw htarget hbreaks)
      (assignment_part hw hread (over_spans hg hs hsign (by decide) (by decide)) hsign hno hover' hvalue)
  | expression hx hu =>
    subst ho
    rw [spanAt_eq hc]
    exact .expression (hx.beginning.construction_miss hw hc hcloses.breaks)
      (hx.assignment_miss hw hu hc rfl hcloses.settles) (expression_part hw (hx.part hw hc rfl hcloses.ends))

theorem BodyText.span (h : BodyText w.fileIndex o x s) : s.span = spanAt w.fileIndex o x := by cases h <;> rfl

theorem BodyText.solid {t : List Char} (h : BodyText w.fileIndex o x s) : Solid (x ++ t) := by
  obtain ⟨ch, y, rfl, hch⟩ := h.head
  exact solid_cons (isOpening_apart hch).1 (isOpening_apart hch).2.1 _

/-! ## Statements -/

/-- A statement that begins with a keyword is read by the rule for it. -/
theorem led_part (hw : w.rules = table) {word name : String} {v : Value} (hp : (word, name) ∈ leads.zip led)
    (hkey : c.Spans word.toList c₁) (hend : WordEnd c₁.rest) (h : Part w name [] c v d) : Part w "Statement" [] c v d := by
  have hbefore : ∀ p ∈ leads.zip led, isWord p.1.toList = true ∧
      alternatives = alternatives.takeWhile (· != p.2) ++ p.2 :: (alternatives.dropWhile (· != p.2)).tail ∧
      ∀ m ∈ alternatives.takeWhile (· != p.2), m = "Compound" ∨
        ∃ q ∈ leads.zip led, isWord q.1.toList = true ∧ q.1 ≠ p.1 ∧ q.2 = m := by decide
  obtain ⟨hword, hl, hmiss⟩ := hbefore _ hp
  have hfirst : FirstWord (· = word) c.rest := by
    rw [hkey.rest]
    exact firstWord_of_word hword hend String.ofList_toList
  refine statement_part hw _ hl (fun m hm => ?_) h
  rcases hmiss m hm with rfl | ⟨q, hq, hq', hne, rfl⟩
  · refine compound_miss hw fun hhead => ?_
    cases hx : word.toList with
    | nil => rw [hx] at hword; cases hword
    | cons ch y =>
      rw [hx] at hword hkey
      have hstart := (isWord_cons.1 hword).1
      rw [spans_head hkey] at hhead
      cases hhead
      exact absurd hstart (by decide)
  · exact lead_miss hw q hq (hfirst.notAt (by simpa using ⟨hq', hne⟩))

/-- Parts that are set off by gaps are read one after the other, if each may stand before what comes next. -/
theorem Row.of_elements {α : Type} {name : String} {into : α → Value} (Next : List Char → Prop) {as : List (Element α)}
    (hp : Element.Placed Gap c.offset as) (hc : c.Spans (Element.written as) d)
    (hpart : ∀ a ∈ as, ∀ c d, c.Spans a.text d → c.offset = a.start → Next d.rest → Part w name [] c (into a.value) d)
    (hsolid : ∀ a ∈ as, ∀ t, Solid (a.text ++ t)) (hnext : ∀ a ∈ as, ∀ g t, Gap g → Next (g ++ (a.text ++ t)))
    (hlast : Next d.rest) : Row w name into c (as.map (·.value)) d := by
  induction as generalizing c with
  | nil =>
    obtain rfl := hc.unique .rfl
    exact .nil
  | cons a as ih =>
    obtain ⟨hg, hstart, hp⟩ := hp
    obtain ⟨c₂, hc₂, hrest⟩ := Cursor.spans_append.1 (show c.Spans (a.lead ++ a.text ++ Element.written as) d from hc)
    obtain ⟨c₁, hs, htext⟩ := Cursor.spans_append.1 hc₂
    rw [← hs.offset] at hstart
    rw [hstart, ← htext.offset] at hp
    have hsolid₁ : Solid c₁.rest := by
      rw [htext.rest]
      exact hsolid a List.mem_cons_self _
    have hnext₂ : Next c₂.rest := by
      rw [hrest.rest]
      cases as with
      | nil => exact hlast
      | cons b bs =>
        have := hnext b (List.mem_cons_of_mem _ List.mem_cons_self) b.lead (Element.written bs ++ d.rest) hp.1
        rwa [← List.append_assoc, ← List.append_assoc] at this
    exact .cons (.of_solid hg hs hsolid₁) (hpart a List.mem_cons_self c₁ c₂ htext hstart.symm hnext₂)
      (ih hp hrest (fun b hb => hpart b (List.mem_cons_of_mem _ hb)) (fun b hb => hsolid b (List.mem_cons_of_mem _ hb))
        fun b hb => hnext b (List.mem_cons_of_mem _ hb))

theorem follows_char {g u : List Char} (hg : Gap g) (hb : Text.isBlank ch = false) (hch : ch ≠ '/')
    (hword : Text.isWordStart ch = false) : Follows s (g ++ ch :: u) := fun _ =>
  ⟨ch :: u, hg _ (solid_cons hb hch u), firstWord_of_noWord (by rintro _ ⟨⟩; exact hword)⟩

/-- A block is read if its items are read where they stand. -/
theorem block_part (hw : w.rules = table) {as : List (Element Statement)} {o' : Nat}
    (ho : o' = c.offset + Text.byteLength ['\x7b']) (hp : Element.Placed Gap o' as)
    (has : ∀ a ∈ as, Says w.fileIndex a.start a.text a.value) (hg : Gap g)
    (hpart : ∀ a ∈ as, ∀ {c d : Cursor}, c.Spans a.text d → c.offset = a.start → Follows a.value d.rest →
      Part w "Statement" [] c (.statement a.value) d)
    (hc : c.Spans (['\x7b'] ++ Element.written as ++ g ++ ['\x7d']) d) :
    Part w "Compound" [] c (.statement (.compound (as.map (·.value)) (w.span c d))) d := by
  obtain ⟨c₃, hc₃, hclose⟩ := Cursor.spans_append.1 hc
  obtain ⟨c₂, hc₂, hs⟩ := Cursor.spans_append.1 hc₃
  obtain ⟨c₁, hopen, hitems⟩ := Cursor.spans_append.1 hc₂
  rw [ho, ← hopen.offset] at hp
  have hrow : Row w "Statement" .statement c₁ (as.map (·.value)) c₂ := by
    refine .of_elements (fun t => ∀ s, Follows s t) hp hitems ?_ (fun a ha => (has a ha).solid) ?_ fun s => ?_
    · exact fun a ha c d hc ho hd => hpart a ha hc ho (hd _)
    · exact fun a ha g t hg s _ => ⟨_, hg _ ((has a ha).solid t), (has a ha).firstWord t⟩
    · rw [hs.rest, hclose.rest]
      exact follows_char hg (by decide) (by decide) (by decide)
  exact compound_part hw hopen hrow (over_spans hg hs hclose (by decide) (by decide)) hclose

theorem Says.part (hw : w.rules = table) (h : Says w.fileIndex o x s) : ∀ {c d : Cursor}, c.Spans x d → c.offset = o →
    Follows s d.rest → Part w "Statement" [] c (.statement s) d := by
  induction h with
  | compound ho₁ hp has hg ih =>
    rintro c d hc rfl -
    rw [spanAt_eq hc]
    exact statement_part hw [] rfl (by simp) (block_part hw ho₁ hp has hg (fun a ha _ _ => ih a ha) hc)
  | ifThen hg ho₁ hx hg' ho₂ hy ih =>
    rintro c d hc rfl hd
    obtain ⟨c₄, hc₄, hthen⟩ := Cursor.spans_append.1 hc
    obtain ⟨c₃, hc₃, hs'⟩ := Cursor.spans_append.1 hc₄
    obtain ⟨c₂, hc₂, hcond⟩ := Cursor.spans_append.1 hc₃
    obtain ⟨c₁, hkey, hs⟩ := Cursor.spans_append.1 hc₂
    have hend : WordEnd c₁.rest := by
      rw [hs.rest, hcond.rest, ← List.append_assoc]
      exact hx.wordEnd hg _
    obtain ⟨r, hr, hfirst⟩ := hd rfl
    rw [spanAt_eq hc]
    exact led_part hw (by decide) hkey hend (if_part hw hkey hend (hx.over hg hs hcond)
      (hx.condition hw hcond (by rw [hc₂.offset, ho₁])) (.of_solid hg' hs' (by rw [hthen.rest]; exact hy.solid _))
      (ih hthen (by rw [hc₄.offset, ho₂]) fun _ => ⟨r, hr, hfirst⟩) hr hfirst)
  | ifElse hg ho₁ hx hg' ho₂ hy hclosed hg₁ hg₂ hend' ho₃ hz ih ih' =>
    rintro c d hc rfl hd
    obtain ⟨c₈, hc₈, hother⟩ := Cursor.spans_append.1 hc
    obtain ⟨c₇, hc₇, hs₂⟩ := Cursor.spans_append.1 hc₈
    obtain ⟨c₆, hc₆, helse⟩ := Cursor.spans_append.1 hc₇
    obtain ⟨c₅, hc₅, hs₁⟩ := Cursor.spans_append.1 hc₆
    obtain ⟨c₄, hc₄, hthen⟩ := Cursor.spans_append.1 hc₅
    obtain ⟨c₃, hc₃, hs'⟩ := Cursor.spans_append.1 hc₄
    obtain ⟨c₂, hc₂, hcond⟩ := Cursor.spans_append.1 hc₃
    obtain ⟨c₁, hkey, hs⟩ := Cursor.spans_append.1 hc₂
    have hend : WordEnd c₁.rest := by
      rw [hs.rest, hcond.rest, ← List.append_assoc]
      exact hx.wordEnd hg _
    have hend' : WordEnd c₇.rest := by
      rw [hs₂.rest, hother.rest, ← List.append_assoc]
      exact hend'.append (by simpa using fun _ => hz.nonempty) _
    rw [spanAt_eq hc]
    exact led_part hw (by decide) hkey hend (if_else_part hw hkey hend (hx.over hg hs hcond)
      (hx.condition hw hcond (by rw [hc₂.offset, ho₁])) (.of_solid hg' hs' (by rw [hthen.rest]; exact hy.solid _))
      (ih hthen (by rw [hc₄.offset, ho₂]) fun hopen => by cases hclosed.symm.trans hopen)
      (over_spans hg₁ hs₁ helse (by decide) (by decide)) helse hend'
      (.of_solid hg₂ hs₂ (by rw [hother.rest]; exact hz.solid _)) (ih' hother (by rw [hc₈.offset, ho₃]) hd))
  | whileLoop hg ho₁ hx hg' ho₂ hy ih =>
    rintro c d hc rfl hd
    obtain ⟨c₄, hc₄, hbody⟩ := Cursor.spans_append.1 hc
    obtain ⟨c₃, hc₃, hs'⟩ := Cursor.spans_append.1 hc₄
    obtain ⟨c₂, hc₂, hcond⟩ := Cursor.spans_append.1 hc₃
    obtain ⟨c₁, hkey, hs⟩ := Cursor.spans_append.1 hc₂
    have hend : WordEnd c₁.rest := by
      rw [hs.rest, hcond.rest, ← List.append_assoc]
      exact hx.wordEnd hg _
    rw [spanAt_eq hc]
    exact led_part hw (by decide) hkey hend (while_part hw hkey hend (hx.over hg hs hcond)
      (hx.condition hw hcond (by rw [hc₂.offset, ho₁])) (.of_solid hg' hs' (by rw [hbody.rest]; exact hy.solid _))
      (ih hbody (by rw [hc₄.offset, ho₂]) hd))
  | doWhile hg hend₀ ho₁ hy hg₁ hg₂ ho₂ hx hg₃ ih =>
    rintro c d hc rfl -
    obtain ⟨c₈, hc₈, hstop⟩ := Cursor.spans_append.1 hc
    obtain ⟨c₇, hc₇, hs₃⟩ := Cursor.spans_append.1 hc₈
    obtain ⟨c₆, hc₆, hcond⟩ := Cursor.spans_append.1 hc₇
    obtain ⟨c₅, hc₅, hs₂⟩ := Cursor.spans_append.1 hc₆
    obtain ⟨c₄, hc₄, hkey'⟩ := Cursor.spans_append.1 hc₅
    obtain ⟨c₃, hc₃, hs₁⟩ := Cursor.spans_append.1 hc₄
    obtain ⟨c₂, hc₂, hbody⟩ := Cursor.spans_append.1 hc₃
    obtain ⟨c₁, hkey, hs⟩ := Cursor.spans_append.1 hc₂
    have hend : WordEnd c₁.rest := by
      rw [hs.rest, hbody.rest, ← List.append_assoc]
      exact hend₀.append (by simpa using fun _ => hy.nonempty) _
    have hend' : WordEnd c₅.rest := by
      rw [hs₂.rest, hcond.rest, ← List.append_assoc]
      exact hx.wordEnd hg₂ _
    have hfollows : ∀ s, Follows s c₃.rest := by
      intro s _
      refine ⟨c₄.rest, ?_, ?_⟩
      · rw [hs₁.rest]
        exact hg₁ _ (by rw [hkey'.rest]; exact solid_cons (by decide) (by decide) _)
      · rw [hkey'.rest]
        exact firstWord_of_word (by decide) hend' (by decide)
    rw [spanAt_eq hc]
    exact led_part hw (by decide) hkey hend (doWhile_part hw hkey hend
      (.of_solid hg hs (by rw [hbody.rest]; exact hy.solid _)) (ih hbody (by rw [hc₂.offset, ho₁]) (hfollows _))
      (over_spans hg₁ hs₁ hkey' (by decide) (by decide)) hkey' hend' (hx.over hg₂ hs₂ hcond)
      (hx.condition hw hcond (by rw [hc₆.offset, ho₂])) (over_spans hg₃ hs₃ hstop (by decide) (by decide)) hstop)
  | forLoop hg ho₁ hi hg₁ ho₂ hcondition hg₂ ho₃ hp hg₃ hg₄ ho₄ hy ih =>
    rintro c d hc rfl hd
    obtain ⟨c₁₃, hc₁₃, hbody⟩ := Cursor.spans_append.1 hc
    obtain ⟨c₁₂, hc₁₂, hs₄⟩ := Cursor.spans_append.1 hc₁₃
    obtain ⟨c₁₁, hc₁₁, hclose⟩ := Cursor.spans_append.1 hc₁₂
    obtain ⟨c₁₀, hc₁₀, hs₃⟩ := Cursor.spans_append.1 hc₁₁
    obtain ⟨c₉, hc₉, hstep⟩ := Cursor.spans_append.1 hc₁₀
    obtain ⟨c₈, hc₈, hstop'⟩ := Cursor.spans_append.1 hc₉
    obtain ⟨c₇, hc₇, hs₂⟩ := Cursor.spans_append.1 hc₈
    obtain ⟨c₆, hc₆, hcond⟩ := Cursor.spans_append.1 hc₇
    obtain ⟨c₅, hc₅, hstop⟩ := Cursor.spans_append.1 hc₆
    obtain ⟨c₄, hc₄, hs₁⟩ := Cursor.spans_append.1 hc₅
    obtain ⟨c₃, hc₃, hinit⟩ := Cursor.spans_append.1 hc₄
    obtain ⟨c₂, hc₂, hopen⟩ := Cursor.spans_append.1 hc₃
    obtain ⟨c₁, hkey, hs⟩ := Cursor.spans_append.1 hc₂
    have hend : WordEnd c₁.rest := by
      rw [hs.rest, hopen.rest]
      exact wordEnd_gap hg (by decide) _
    have hover₁ := over_spans hg₁ hs₁ hstop (by decide) (by decide)
    have hover₂ := over_spans hg₂ hs₂ hstop' (by decide) (by decide)
    have hover₃ := over_spans hg₃ hs₃ hclose (by decide) (by decide)
    have hmiss : ∀ {c d : Cursor} {ch : Char}, c.Spans [ch] d → isOpening ch = false →
        Misses w blanks "ForInit" [] c ∧ Misses w blanks "Expression" [.mode {}] c ∧ Misses w blanks "ForStep" [] c := by
      intro c d ch hc hch
      have hhead : ∀ ch ∈ c.rest.head?, isOpening ch = false := by
        rw [spans_head hc]
        rintro _ ⟨⟩
        exact hch
      have hbodies := bodies_miss hw hhead
      exact ⟨chooses_forInit.none hw hbodies, expression_miss_head hw hhead,
        chooses_forStep.none hw fun n hn => hbodies n (List.mem_cons_of_mem _ hn)⟩
    rw [spanAt_eq hc]
    exact led_part hw (by decide) hkey hend (for_part hw hkey hend (over_spans hg hs hopen (by decide) (by decide)) hopen
      (hi.maybe hinit (by rw [hc₃.offset, ho₁]) hover₁ (fun h => h.solid)
        (fun h hc => (h.read hw hc rfl hover₁ (spans_head hstop) (.inr rfl)).forInit hw) (hmiss hstop (by decide)).1)
      hover₁ hstop
      (hcondition.maybe hcond (by rw [hc₆.offset, ho₂]) hover₂ (fun h => h.solid _)
        (fun h hc => h.part hw hc rfl (hover₂.closes (spans_head hstop') (.inr rfl)).ends) (hmiss hstop' (by decide)).2.1)
      hover₂ hstop'
      (hp.maybe hstep (by rw [hc₉.offset, ho₃]) hover₃ (fun h => h.1.solid)
        (fun h hc => (h.1.read hw hc rfl hover₃ (spans_head hclose) (.inl rfl)).forStep hw h.2) (hmiss hclose (by decide)).2.2)
      hover₃ hclose (.of_solid hg₄ hs₄ (by rw [hbody.rest]; exact hy.solid _)) (ih hbody (by rw [hc₁₃.offset, ho₄]) hd))
  | ret ho₁ hx hend₀ hg =>
    rintro c d hc rfl -
    obtain ⟨c₃, hc₃, hstop⟩ := Cursor.spans_append.1 hc
    obtain ⟨c₂, hc₂, hs⟩ := Cursor.spans_append.1 hc₃
    obtain ⟨c₁, hkey, hvalue⟩ := Cursor.spans_append.1 hc₂
    have hend : WordEnd c₁.rest := by
      rw [hvalue.rest, hs.rest, hstop.rest, ← List.append_assoc, ← List.append_assoc]
      exact hend₀.append (by simp) _
    have hover := over_spans hg hs hstop (by decide) (by decide)
    have hmiss : Misses w blanks "Expression" [.mode {}] c₃ := by
      refine expression_miss_head hw ?_
      rw [spans_head hstop]
      rintro _ ⟨⟩
      decide
    rw [spanAt_eq hc]
    exact led_part hw (by decide) hkey hend (return_part hw hkey hend (hx.maybe hvalue (by rw [hkey.offset, ho₁]) hover
      (fun h => h.solid _) (fun h hc => h.part hw hc rfl (hover.closes (spans_head hstop) (.inr rfl)).ends) hmiss) hover hstop)
  | breakLoop hg =>
    rintro c d hc rfl -
    obtain ⟨c₂, hc₂, hstop⟩ := Cursor.spans_append.1 hc
    obtain ⟨c₁, hkey, hs⟩ := Cursor.spans_append.1 hc₂
    have hend : WordEnd c₁.rest := by
      rw [hs.rest, hstop.rest]
      exact wordEnd_gap hg (by decide) _
    rw [spanAt_eq hc]
    exact led_part hw (by decide) hkey hend
      (break_part hw hkey hend (over_spans hg hs hstop (by decide) (by decide)) hstop)
  | continueLoop hg =>
    rintro c d hc rfl -
    obtain ⟨c₂, hc₂, hstop⟩ := Cursor.spans_append.1 hc
    obtain ⟨c₁, hkey, hs⟩ := Cursor.spans_append.1 hc₂
    have hend : WordEnd c₁.rest := by
      rw [hs.rest, hstop.rest]
      exact wordEnd_gap hg (by decide) _
    rw [spanAt_eq hc]
    exact led_part hw (by decide) hkey hend
      (continue_part hw hkey hend (over_spans hg hs hstop (by decide) (by decide)) hstop)
  | @body o x g s h hg =>
    rintro c d hc rfl -
    obtain ⟨c₂, hc₂, hstop⟩ := Cursor.spans_append.1 hc
    obtain ⟨c₁, hx, hs⟩ := Cursor.spans_append.1 hc₂
    have hover := over_spans hg hs hstop (by decide) (by decide)
    have hread := h.read hw hx rfl hover (spans_head hstop) (.inr rfl)
    have hbefore : ∀ n ∈ "Compound" :: led, Misses w blanks n [] c := by
      refine before_construction hw ?_ ?_
      · obtain ⟨ch, y, rfl, hch⟩ := h.head
        rw [spans_head hx]
        rintro ⟨⟩
        exact absurd hch (by decide)
      · have hfirst := h.firstWord (hover.closes (spans_head hstop) (.inr rfl)).breaks.word
        rw [← hx.rest] at hfirst
        exact hfirst.notAt fun word hmem => ⟨(by decide : ∀ word ∈ leads, isWord word.toList = true) word hmem,
          fun hopens => opens_apart hopens (List.mem_cons_of_mem _ hmem)⟩
    have hpart := hread.statement hw hbefore hover hstop
    have hspan : s.extendTo d.offset = s.withSpan (spanAt w.fileIndex c.offset (x ++ g ++ [';'])) := by
      rw [Statement.extendTo, h.span, Span.extendTo, hc.offset]
      simp only [spanAt, Text.byteLength_append]
      congr 2
      omega
    rwa [hspan] at hpart
  | empty =>
    rintro c d hc rfl -
    have hhead := spans_head hc
    have hnot : ∀ ch ∈ c.rest.head?, isOpening ch = false := by
      rw [hhead]
      rintro _ ⟨⟩
      decide
    rw [spanAt_eq hc]
    refine statement_part hw ("Compound" :: led ++ ["Construction", "Assignment", "ExpressionStatement"]) rfl ?_
      (empty_part hw hc)
    have hbodies := bodies_miss hw hnot
    refine List.forall_mem_append.2 ⟨before_construction hw (by rw [hhead]; decide) (notAt_of_noWord (by decide) ?_), ?_⟩
    · rw [hc.rest]
      rintro _ ⟨⟩
      decide
    · simp only [List.forall_mem_cons]
      exact ⟨terminates_construction.miss hw (hbodies _ (by decide)), terminates_assignment.miss hw (hbodies _ (by decide)),
        terminates_expression.miss hw (hbodies _ (by decide)), fun _ h => absurd h List.not_mem_nil⟩

end

end PegFront.Cminor
