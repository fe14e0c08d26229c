import PegFront.Proofs.Cminor.Functions

/-!
# Spans of whole trees

The outline of a tree is the tree of the spans of its nodes: compile units, functions, parameters, types, statements,
expressions and identifiers. In whatever parses, it is orderly: every span is a piece of the source, the spans of the
parts of a node lie in that of the node, and they follow each other without overlap (`parse_orderly`).

The span of a node need not cover the text the node is read from, since parentheses leave no node behind. What carries
the proof is that the parts of a node lie in order in that text (`Outlined`), and that this is kept as the text grows
at its end.
-/

namespace PegFront

/-- A span is a piece of the source, cut at char boundaries. -/
structure Span.Fits (f : Nat) (source : List Char) (s : Span) : Prop where
  file : s.file = f
  ordered : s.start ≤ s.stop
  inside : s.stop ≤ Text.byteLength source
  start : (Text.dropBytes? s.start source).isSome = true
  stop : (Text.dropBytes? s.stop source).isSome = true

namespace Cminor

/-! ## Outlines -/

inductive Outline where
  | node (span : Span) (parts : List Outline)

namespace Outline

def span : Outline → Span
  | .node s _ => s

def parts : Outline → List Outline
  | .node _ ps => ps

/-- All spans are pieces of the source, parts lie in the whole, and each part ends before the next one begins. -/
inductive Orderly (f : Nat) (source : List Char) : Outline → Prop
  | node {s : Span} {ps : List Outline} (fits : s.Fits f source)
      (within : ∀ p ∈ ps, s.start ≤ p.span.start ∧ p.span.stop ≤ s.stop)
      (apart : ps.Pairwise fun p q => p.span.stop ≤ q.span.start) (parts : ∀ p ∈ ps, Orderly f source p) :
      Orderly f source (.node s ps)

theorem Orderly.fits {f : Nat} {source : List Char} {t : Outline} (h : t.Orderly f source) : t.span.Fits f source := by
  cases h with
  | node fits => exact fits

end Outline

def Identifier.outline (id : Identifier) : Outline := .node id.span []

namespace Expr

mutual

def outline : Expr → Outline
  | .literal _ s => .node s []
  | .name id s => .node s [id.outline]
  | .this s => .node s []
  | .unary _ e s => .node s [outline e]
  | .binary _ left right s => .node s [outline left, outline right]
  | .member target id s => .node s [outline target, id.outline]
  | .invoke target arguments s => .node s (outline target :: outlines arguments)
  | .index target i s => .node s [outline target, outline i]

def outlines : List Expr → List Outline
  | [] => []
  | e :: es => outline e :: outlines es

end

theorem outlines_eq (es : List Expr) : outlines es = es.map outline := by
  induction es with
  | nil => rfl
  | cons e es ih => rw [outlines, ih, List.map_cons]

theorem span_outline (e : Expr) : e.outline.span = e.span := by cases e <;> rfl

end Expr

def TypeExpr.outline : TypeExpr → Outline
  | .basic _ s => .node s []
  | .named id s => .node s [id.outline]
  | .array t s => .node s [t.outline]

namespace Statement

mutual

def outline : Statement → Outline
  | .compound items s => .node s (outlines items)
  | .expression e s => .node s [e.outline]
  | .assignment target value s => .node s [target.outline, value.outline]
  | .construction t id init s => .node s ([t.outline] ++ [id.outline] ++ init.toList.map Expr.outline)
  | .ifElse e b b' s => .node s ([e.outline] ++ [outline b] ++ outline? b')
  | .whileLoop e b s => .node s [e.outline, outline b]
  | .doWhile b e s => .node s [outline b, e.outline]
  | .forLoop init e step b s =>
    .node s (outline? init ++ e.toList.map Expr.outline ++ outline? step ++ [outline b])
  | .ret e s => .node s (e.toList.map Expr.outline)
  | .breakLoop s | .continueLoop s | .empty s => .node s []

def outlines : List Statement → List Outline
  | [] => []
  | s :: ss => outline s :: outlines ss

def outline? : Option Statement → List Outline
  | none => []
  | some s => [outline s]

end

theorem outlines_eq (ss : List Statement) : outlines ss = ss.map outline := by
  induction ss with
  | nil => rfl
  | cons s ss ih => rw [outlines, ih, List.map_cons]

theorem outline?_eq (s : Option Statement) : outline? s = s.toList.map outline := by cases s <;> rfl

theorem outline_withSpan (s : Statement) (span : Span) : (s.withSpan span).outline = .node span s.outline.parts := by
  cases s <;> rfl

end Statement

def Parameter.outline (p : Parameter) : Outline := .node p.span [p.type.outline, p.name.outline]

def FunctionDef.outline (fn : FunctionDef) : Outline :=
  .node fn.span
    ([fn.returnType.outline, fn.name.outline] ++ fn.parameters.map Parameter.outline ++ [fn.body.outline])

def CompileUnit.outline (u : CompileUnit) : Outline := .node u.span (u.functions.map FunctionDef.outline)

/-- The outline of what a parse answers with. -/
def Value.outline? : Value → Option Outline
  | .expr e => some e.outline
  | .statement s => some s.outline
  | .compileUnit u => some u.outline
  | _ => none

/-! ## Pieces of the source -/

/-- A text stands in the source at an offset. -/
def Stands (source : List Char) (o : Nat) (x : List Char) : Prop :=
  ∃ a b, source = a ++ x ++ b ∧ o = Text.byteLength a

section
variable {f o o' : Nat} {source x y : List Char}

theorem offset_append (ho : o' = o + Text.byteLength x) (y : List Char) :
    o' + Text.byteLength y = o + Text.byteLength (x ++ y) := by
  rw [ho, Text.byteLength_append, Nat.add_assoc]

theorem Stands.left (h : Stands source o (x ++ y)) : Stands source o x := by
  obtain ⟨a, b, rfl, ho⟩ := h
  exact ⟨a, y ++ b, by simp only [List.append_assoc], ho⟩

theorem Stands.right (h : Stands source o (x ++ y)) (ho : o' = o + Text.byteLength x) : Stands source o' y := by
  obtain ⟨a, b, rfl, rfl⟩ := h
  exact ⟨a ++ x, b, by simp only [List.append_assoc], by rw [ho, Text.byteLength_append]⟩

theorem Stands.boundary (h : Stands source o x) : (Text.dropBytes? o source).isSome = true := by
  obtain ⟨a, b, rfl, rfl⟩ := h
  rw [List.append_assoc, Text.dropBytes?_byteLength_append]
  rfl

/-- The span of a text in the source is a piece of it. -/
theorem Stands.fits (h : Stands source o x) : (spanAt f o x).Fits f source where
  file := rfl
  ordered := Nat.le_add_right _ _
  inside := by
    obtain ⟨a, b, rfl, rfl⟩ := h
    simp only [spanAt, Text.byteLength_append]
    omega
  start := h.boundary
  stop := by
    rw [← List.append_nil x] at h
    exact (h.right rfl).boundary

/-! ## Parts in order -/

/-- Outlines that are orderly and lie one after the other between two offsets. -/
def Outlined (f : Nat) (source : List Char) : Nat → Nat → List Outline → Prop
  | a, b, [] => a ≤ b
  | a, b, t :: ts => t.Orderly f source ∧ a ≤ t.span.start ∧ Outlined f source t.span.stop b ts

namespace Outlined

variable {a b c : Nat} {t : Outline} {ts us : List Outline}

theorem le (h : Outlined f source a b ts) : a ≤ b := by
  induction ts generalizing a with
  | nil => exact h
  | cons t ts ih =>
    obtain ⟨ht, ha, hts⟩ := h
    exact Nat.le_trans ha (Nat.le_trans ht.fits.ordered (ih hts))

theorem widen (h : Outlined f source a b ts) (hb : b ≤ c) : Outlined f source a c ts := by
  induction ts generalizing a with
  | nil => exact Nat.le_trans h hb
  | cons t ts ih => exact ⟨h.1, h.2.1, ih h.2.2⟩

theorem from_before (h : Outlined f source b c ts) (ha : a ≤ b) : Outlined f source a c ts := by
  cases ts with
  | nil => exact Nat.le_trans ha h
  | cons t ts => exact ⟨h.1, Nat.le_trans ha h.2.1, h.2.2⟩

theorem append (h : Outlined f source a b ts) (h' : Outlined f source b c us) : Outlined f source a c (ts ++ us) := by
  induction ts generalizing a with
  | nil => exact h'.from_before h
  | cons t ts ih => exact ⟨h.1, h.2.1, ih h.2.2⟩

theorem mem (h : Outlined f source a b ts) : ∀ t ∈ ts, t.Orderly f source ∧ a ≤ t.span.start ∧ t.span.stop ≤ b := by
  induction ts generalizing a with
  | nil => exact fun _ ht => absurd ht List.not_mem_nil
  | cons t ts ih =>
    obtain ⟨ht, ha, hts⟩ := h
    refine List.forall_mem_cons.2 ⟨⟨ht, ha, hts.le⟩, fun t' ht' => ?_⟩
    obtain ⟨horderly, hstart, hstop⟩ := ih hts t' ht'
    exact ⟨horderly, Nat.le_trans ha (Nat.le_trans ht.fits.ordered hstart), hstop⟩

theorem apart (h : Outlined f source a b ts) : ts.Pairwise fun t u => t.span.stop ≤ u.span.start := by
  induction ts generalizing a with
  | nil => exact .nil
  | cons t ts ih =>
    obtain ⟨-, -, hts⟩ := h
    exact .cons (fun u hu => (hts.mem u hu).2.1) (ih hts)

/-- A node whose parts lie in order in its span. -/
theorem node {s : Span} (h : Outlined f source s.start s.stop ts) (fits : s.Fits f source) :
    (Outline.node s ts).Orderly f source :=
  .node fits (fun t ht => (h.mem t ht).2) h.apart fun t ht => (h.mem t ht).1

/-- A node over the text of its parts. -/
theorem whole (h : Outlined f source o (o + Text.byteLength x) ts) (hx : Stands source o x) :
    Outlined f source o (o + Text.byteLength x) [.node (spanAt f o x) ts] :=
  ⟨node h hx.fits, Nat.le_refl _, Nat.le_refl _⟩

theorem leaf (hx : Stands source o x) : Outlined f source o (o + Text.byteLength x) [.node (spanAt f o x) []] :=
  whole (Nat.le_add_right _ _) hx

theorem none (f : Nat) (source x : List Char) (o : Nat) : Outlined f source o (o + Text.byteLength x) [] :=
  Nat.le_add_right _ _

/-- More text after the parts. -/
theorem skip (h : Outlined f source o (o + Text.byteLength x) ts) :
    Outlined f source o (o + Text.byteLength (x ++ y)) ts :=
  h.widen (by rw [Text.byteLength_append]; omega)

/-- More parts after the text. -/
theorem next (h : Outlined f source o (o + Text.byteLength x) ts) (ho : o' = o + Text.byteLength x)
    (h' : Outlined f source o' (o' + Text.byteLength y) us) :
    Outlined f source o (o + Text.byteLength (x ++ y)) (ts ++ us) := by
  rw [ho] at h'
  rw [Text.byteLength_append, ← Nat.add_assoc]
  exact h.append h'

/-- Parts set off from each other. -/
theorem row {α : Type} {Sets : List Char → Prop} {as : List (Element α)} (outline : α → Outline)
    (hs : Stands source o (Element.written as)) (hp : Element.Placed Sets o as)
    (has : ∀ a ∈ as, Stands source a.start a.text →
      Outlined f source a.start (a.start + Text.byteLength a.text) [outline a.value]) :
    Outlined f source o (o + Text.byteLength (Element.written as)) ((as.map (·.value)).map outline) := by
  induction as generalizing o with
  | nil => exact none f source [] o
  | cons a as ih =>
    obtain ⟨-, hstart, hplaced⟩ := hp
    obtain ⟨ha, has⟩ := List.forall_mem_cons.1 has
    have hs : Stands source o (a.lead ++ a.text ++ Element.written as) := hs
    have hnext := offset_append hstart a.text
    have hfirst := (none f source a.lead o).next hstart (ha (hs.left.right hstart))
    exact hfirst.next hnext (ih (hs.right hnext) hplaced has)

theorem optionally {α : Type} {R : Nat → List Char → α → Prop} {v : Option α} {outline : α → Outline}
    (h : Optionally R o x v) (hs : Stands source o x)
    (hR : ∀ {o x a}, R o x a → Stands source o x → Outlined f source o (o + Text.byteLength x) [outline a]) :
    Outlined f source o (o + Text.byteLength x) (v.toList.map outline) := by
  cases h with
  | none => exact none f source [] o
  | some hg ho h => exact (none f source _ o).next ho (hR h (hs.right ho))

end Outlined

/-! ## Expressions -/

/-- An argument with the comma before it. -/
def Argument.element (a : Argument) : Element Expr := ⟨a.comma, a.start, a.text, a.value⟩

theorem Argument.Placed.elements {as : List Argument} (hp : Argument.Placed o as) :
    Element.Placed Comma o (as.map Argument.element) := by
  induction as generalizing o with
  | nil => trivial
  | cons a as ih =>
    obtain ⟨hg, hg', hstart, hp⟩ := hp
    exact ⟨⟨_, _, hg, hg', rfl⟩, hstart, ih hp⟩

theorem Argument.written_elements (as : List Argument) : Element.written (as.map Argument.element) = Argument.written as :=
  List.flatMap_map _ _ _

variable {k : Nat} {lv : Bool} {e : Expr} {t : TypeExpr} {s : Statement}

/-- An operator before its operand, whose end it shares. -/
theorem Outlined.unary (op : UnaryOp) (h : Outlined f source o' (o' + Text.byteLength y) [e.outline])
    (hs : Stands source o (x ++ y)) (ho : o' = o + Text.byteLength x) :
    Outlined f source o (o + Text.byteLength (x ++ y)) [(Expr.unary op e ⟨e.span.file, o, e.span.stop⟩).outline] := by
  obtain ⟨horderly, hstart, hstop⟩ := (Outlined.none f source x o).next ho h
  obtain ⟨file, ordered, inside, start, stop⟩ := horderly.fits
  rw [← e.span_outline]
  exact ⟨Outlined.node ⟨horderly, hstart, Nat.le_refl _⟩ ⟨file, Nat.le_trans hstart ordered, inside, hs.boundary, stop⟩,
    Nat.le_refl _, hstop⟩

/-- The span of a node with two operands reaches from one to the other. -/
theorem Outlined.binary {e' : Expr} {a b : Nat} (op : BinaryOp) (h : Outlined f source a b [e.outline, e'.outline]) :
    Outlined f source a b [(Expr.ofOperands op e e').outline] := by
  obtain ⟨hleft, hstart, hright, hbetween, hstop⟩ := h
  have hmerge : e.span.merge e'.span = ⟨e.outline.span.file, e.outline.span.start, e'.outline.span.stop⟩ := by
    have := hleft.fits.ordered
    have := hright.fits.ordered
    rw [← e.span_outline, ← e'.span_outline, Span.merge, Nat.min_eq_left (by omega), Nat.max_eq_right (by omega)]
  have hfits : (e.span.merge e'.span).Fits f source := by
    rw [hmerge]
    exact ⟨hleft.fits.file, Nat.le_trans hleft.fits.ordered (Nat.le_trans hbetween hright.fits.ordered),
      hright.fits.inside, hleft.fits.start, hright.fits.stop⟩
  refine ⟨Outlined.node ?_ hfits, ?_, ?_⟩
  · rw [hmerge]
    exact ⟨hleft, Nat.le_refl _, hright, hbetween, Nat.le_refl _⟩
  · show a ≤ (e.span.merge e'.span).start
    rw [hmerge]
    exact hstart
  · show (e.span.merge e'.span).stop ≤ b
    rw [hmerge]
    exact hstop

theorem Reads.outlined (h : Reads f lv k o x e) (hs : Stands source o x) :
    Outlined f source o (o + Text.byteLength x) [e.outline] := by
  induction h with
  | literal | this => exact .leaf hs
  | name => exact .whole (.leaf hs) hs
  | paren _ ho _ _ ih => exact ((Outlined.none f source _ _).next ho (ih (hs.left.left.right ho))).skip.skip
  | member _ _ _ _ ho ih => exact .whole ((ih hs.left.left.left.left).skip.skip.skip.next ho (.leaf (hs.right ho))) hs
  | call _ _ _ ih => exact .whole (ih hs.left.left.left.left).skip.skip.skip.skip hs
  | @invoke _ _ _ _ _ _ y _ _ _ _ _ _ _ ho _ hp _ _ ih ihy ihas =>
    rw [← Argument.written_elements] at hs ⊢
    have hrest := offset_append ho y
    have hfirst := (ih hs.left.left.left.left.left.left.left).skip.skip.skip.next ho (ihy (hs.left.left.left.right ho))
    have hrow := Outlined.row Expr.outline (hs.left.left.right hrest) hp.elements
      (List.forall_mem_map.2 fun a ha => ihas a ha)
    have hall := (hfirst.next hrest hrow).skip.skip.whole hs
    rw [List.map_map, List.map_map] at hall
    rw [Expr.outline, Expr.outlines, Expr.outlines_eq, List.map_map]
    exact hall
  | index _ _ _ ho _ _ ih ihy =>
    exact .whole ((ih hs.left.left.left.left.left.left).skip.skip.skip.next ho
      (ihy (hs.left.left.right ho))).skip.skip hs
  | unary op hg ho _ ih => exact (ih (hs.right ho)).unary op hs ho
  | binary op _ _ _ _ _ ho _ ih ih' =>
    exact ((ih hs.left.left.left.left).skip.skip.skip.next ho (ih' (hs.right ho))).binary op
  | lift _ _ ih => exact ih hs

/-! ## Statements -/

theorem Enclosed.outlined (h : Enclosed f o x e) (hs : Stands source o x) :
    Outlined f source o (o + Text.byteLength x) [e.outline] := by
  cases h with
  | mk _ ho h => exact ((Outlined.none f source _ _).next ho (h.outlined (hs.left.left.right ho))).skip.skip

theorem Assigned.outlined (h : Assigned f o x e) (hs : Stands source o x) :
    Outlined f source o (o + Text.byteLength x) [e.outline] := by
  cases h with
  | mk _ ho h => exact (Outlined.none f source _ _).next ho (h.outlined (hs.right ho))

theorem TypeText.outlined (h : TypeText f o x t) (hs : Stands source o x) :
    Outlined f source o (o + Text.byteLength x) [t.outline] := by
  induction h with
  | basic => exact .leaf hs
  | named => exact .whole (.leaf hs) hs
  | array _ _ _ ih => exact .whole (ih hs.left.left.left.left).skip.skip.skip.skip hs

theorem BodyText.parts_outlined (h : BodyText f o x s) (hs : Stands source o x) :
    Outlined f source o (o + Text.byteLength x) s.outline.parts := by
  cases h with
  | construction hx _ _ _ ho ho' hi =>
    exact ((hx.outlined hs.left.left.left).skip.next ho (.leaf (hs.left.right ho))).next ho'
      (.optionally hi (hs.right ho') Assigned.outlined)
  | assignment hx _ ho hy => exact (hx.outlined hs.left.left).skip.next ho (hy.outlined (hs.right ho))
  | expression hx => exact hx.outlined hs

theorem BodyText.outlined (h : BodyText f o x s) (hs : Stands source o x) :
    Outlined f source o (o + Text.byteLength x) [s.outline] := by
  have hparts := (h.parts_outlined hs).whole hs
  cases h <;> exact hparts

theorem Says.outlined (h : Says f o x s) (hs : Stands source o x) :
    Outlined f source o (o + Text.byteLength x) [s.outline] := by
  induction h with
  | compound ho hp _ _ ih =>
    rw [Statement.outline, Statement.outlines_eq]
    exact .whole ((Outlined.none f source _ _).next ho (.row _ (hs.left.left.right ho) hp ih)).skip.skip hs
  | ifThen _ ho₁ hx _ ho₂ _ ih =>
    exact .whole (((Outlined.none f source _ _).next ho₁ (hx.outlined (hs.left.left.right ho₁))).skip.next ho₂
      (ih (hs.right ho₂))) hs
  | ifElse _ ho₁ hx _ ho₂ _ _ _ _ _ ho₃ _ ih ih' =>
    exact .whole ((((Outlined.none f source _ _).next ho₁ (hx.outlined (hs.left.left.left.left.left.left.right ho₁))).skip.next
      ho₂ (ih (hs.left.left.left.left.right ho₂))).skip.skip.skip.next ho₃ (ih' (hs.right ho₃))) hs
  | whileLoop _ ho₁ hx _ ho₂ _ ih =>
    exact .whole (((Outlined.none f source _ _).next ho₁ (hx.outlined (hs.left.left.right ho₁))).skip.next ho₂
      (ih (hs.right ho₂))) hs
  | doWhile _ _ ho₁ _ _ _ ho₂ hx _ ih =>
    exact .whole (((Outlined.none f source _ _).next ho₁ (ih (hs.left.left.left.left.left.left.right ho₁))).skip.skip.skip.next
      ho₂ (hx.outlined (hs.left.left.right ho₂))).skip.skip hs
  | forLoop _ ho₁ hi _ ho₂ hc _ ho₃ hp _ _ ho₄ _ ih =>
    rw [Statement.outline, Statement.outline?_eq, Statement.outline?_eq]
    have htail := hs.left.left.left.left
    have hmid := htail.left.left.left
    have hinit := Outlined.optionally hi (hmid.left.left.left.right ho₁) BodyText.outlined
    have hcondition := Outlined.optionally hc (hmid.right ho₂) Reads.outlined
    have hstep := Outlined.optionally hp (htail.right ho₃) fun h => h.1.outlined
    exact .whole (((((Outlined.none f source _ _).next ho₁ hinit).skip.skip.next ho₂ hcondition).skip.skip.next ho₃
      hstep).skip.skip.skip.next ho₄ (ih (hs.right ho₄))) hs
  | ret ho hx =>
    exact .whole ((Outlined.none f source _ _).next ho (.optionally hx (hs.left.left.right ho) Reads.outlined)).skip.skip hs
  | breakLoop | continueLoop | empty => exact .leaf hs
  | body h _ =>
    rw [Statement.outline_withSpan]
    exact .whole (h.parts_outlined hs.left.left).skip.skip hs

/-! ## Compile units -/

theorem DeclaredText.outlined {id : Identifier} (h : DeclaredText f o x t id) (hs : Stands source o x) :
    Outlined f source o (o + Text.byteLength x) [t.outline, id.outline] := by
  cases h with
  | mk hx _ _ _ ho => exact (hx.outlined hs.left.left).skip.next ho (.leaf (hs.right ho))

theorem ParameterText.outlined {p : Parameter} (h : ParameterText f o x p) (hs : Stands source o x) :
    Outlined f source o (o + Text.byteLength x) [p.outline] := by
  cases h with
  | mk h => exact .whole (h.outlined hs) hs

theorem ParametersText.outlined {ps : List Parameter} (h : ParametersText f o x ps) (hs : Stands source o x) :
    Outlined f source o (o + Text.byteLength x) (ps.map Parameter.outline) := by
  cases h with
  | mk h ho hp has => exact (h.outlined hs.left).next ho (.row _ (hs.right ho) hp fun a ha => (has a ha).outlined)

theorem parameters_outlined {ps : Option (List Parameter)} (h : Optionally (ParametersText f) o x ps)
    (hs : Stands source o x) : Outlined f source o (o + Text.byteLength x) ((ps.getD []).map Parameter.outline) := by
  cases h with
  | none => exact .none f source [] o
  | some _ ho h => exact (Outlined.none f source _ o).next ho (h.outlined (hs.right ho))

theorem FunctionText.outlined {fn : FunctionDef} (h : FunctionText f o x fn) (hs : Stands source o x) :
    Outlined f source o (o + Text.byteLength x) [fn.outline] := by
  cases h with
  | mk hd _ ho₁ hp _ _ ho₂ hb =>
    have hhead := hs.left.left.left.left
    exact .whole (((hd.outlined hhead.left.left.left).skip.skip.next ho₁ (parameters_outlined hp (hhead.right ho₁))).skip.skip.skip.next
      ho₂ (hb.outlined (hs.right ho₂))) hs

theorem UnitText.outlined {file : String} {u : CompileUnit} (h : UnitText f file o x u) (hs : Stands source o x) :
    Outlined f source o (o + Text.byteLength x) [u.outline] := by
  cases h with
  | empty => exact .leaf hs
  | functions h ho hp has =>
    exact .whole ((h.outlined hs.left).next ho (.row _ (hs.right ho) hp fun a ha => (has a ha).outlined)) hs

end

/-- In what parses, all spans are pieces of the source and lie as the nodes do: parts in the whole, one after the other. -/
theorem parse_orderly {kind : SourceKind} {source : String} {options : Options} {session : Session Value} {v : Value}
    (h : (parse kind source options session).1 = .ok v) :
    ∃ t, v.outline? = some t ∧ t.Orderly options.fileIndex source.toList := by
  have hkind : v.kind = kind.valueKind := by
    have hanswers := parse_answers kind source options session
    rw [h] at hanswers
    cases hanswers with
    | value h => exact h
  have haccepts := (parse_eq_ok_iff kind source options session v).1 h
  cases kind with
  | unit =>
    cases v with
    | compileUnit u =>
      obtain ⟨lead, x, trail, hsource, -, hx, -⟩ := parseCompileUnit_eq_ok_iff.1
        (parseFile_eq_ok_iff.2 ⟨.compileUnit u, rfl, haccepts⟩)
      exact ⟨u.outline, rfl, (hx.outlined ⟨lead, trail, hsource, rfl⟩).1⟩
    | _ => cases hkind
  | statement =>
    cases v with
    | statement s =>
      obtain ⟨lead, x, trail, hsource, -, hx, -⟩ := parseStatement_eq_ok_iff.1
        (parseFile_eq_ok_iff.2 ⟨.statement s, rfl, haccepts⟩)
      exact ⟨s.outline, rfl, (hx.outlined ⟨lead, trail, hsource, rfl⟩).1⟩
    | _ => cases hkind
  | expression =>
    cases v with
    | expr e =>
      obtain ⟨lead, x, trail, hsource, -, hx, -⟩ := parseExpression_eq_ok_iff.1
        (parseFile_eq_ok_iff.2 ⟨.expr e, rfl, haccepts⟩)
      exact ⟨e.outline, rfl, (hx.outlined ⟨lead, trail, hsource, rfl⟩).1⟩
    | _ => cases hkind

/-- The span of a product begins in the parentheses around its first factor. -/
theorem parse_orderly_product : ∃ v, (parse .expression "(a) * b" ⟨"f", 0, true⟩ {}).1 = .ok v ∧
    v.outline? = some (.node ⟨0, 1, 7⟩ [.node ⟨0, 1, 2⟩ [.node ⟨0, 1, 2⟩ []], .node ⟨0, 6, 7⟩ [.node ⟨0, 6, 7⟩ []]]) ∧
    ∃ t, v.outline? = some t ∧ t.Orderly 0 "(a) * b".toList := by
  obtain ⟨v, hv, haccepts⟩ := parseFile_eq_ok_iff.1 parse_product
  have hparse := (parse_eq_ok_iff .expression "(a) * b" ⟨"f", 0, true⟩ {} v).2 haccepts
  refine ⟨v, hparse, ?_, parse_orderly hparse⟩
  cases v with
  | expr e =>
    cases hv
    rfl
  | _ => cases hv

end Cminor

end PegFront
