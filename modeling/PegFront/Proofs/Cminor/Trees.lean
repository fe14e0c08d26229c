import PegFront.Cminor.Value
import PegFront.Proofs.Place

/-!
# Trees with other spans

Every node of a tree carries a span. `mapSpans` changes all of them and nothing else; moving a tree on in the text is
the case the parser is compared with itself by, and forgetting the spans the case in which only the shape of a tree
counts.
-/

namespace PegFront.Cminor

/-! ## Changing spans -/

def Identifier.mapSpan (g : Span → Span) (id : Identifier) : Identifier := ⟨id.name, g id.span⟩

namespace Expr

/-- Induction over a tree and the arguments in it. -/
theorem induct {P : Expr → Prop} (literal : ∀ l s, P (.literal l s)) (name : ∀ id s, P (.name id s))
    (this : ∀ s, P (.this s)) (unary : ∀ op e s, P e → P (.unary op e s))
    (binary : ∀ op left right s, P left → P right → P (.binary op left right s))
    (member : ∀ target id s, P target → P (.member target id s))
    (invoke : ∀ target arguments s, P target → (∀ a ∈ arguments, P a) → P (.invoke target arguments s))
    (index : ∀ target i s, P target → P i → P (.index target i s)) (e : Expr) : P e :=
  @Expr.rec P (fun es => ∀ a ∈ es, P a) literal name this unary binary member invoke index
    (fun _ h => absurd h List.not_mem_nil)
    (fun _ _ head tail _ h => (List.mem_cons.1 h).elim (fun h => h ▸ head) (tail _)) e

mutual

/-- A tree with other spans. -/
def mapSpans (g : Span → Span) : Expr → Expr
  | .literal l s => .literal l (g s)
  | .name id s => .name (id.mapSpan g) (g s)
  | .this s => .this (g s)
  | .unary op operand s => .unary op (mapSpans g operand) (g s)
  | .binary op left right s => .binary op (mapSpans g left) (mapSpans g right) (g s)
  | .member target id s => .member (mapSpans g target) (id.mapSpan g) (g s)
  | .invoke target arguments s => .invoke (mapSpans g target) (mapSpansAll g arguments) (g s)
  | .index target i s => .index (mapSpans g target) (mapSpans g i) (g s)

def mapSpansAll (g : Span → Span) : List Expr → List Expr
  | [] => []
  | e :: es => mapSpans g e :: mapSpansAll g es

end

/-- All spans of a tree, moved on. -/
abbrev shift (n : Nat) (e : Expr) : Expr := e.mapSpans (Span.shift n)

theorem span_mapSpans (g : Span → Span) (e : Expr) : (e.mapSpans g).span = g e.span := by cases e <;> rfl

theorem shift_ofOperands (n : Nat) (op : BinaryOp) (left right : Expr) :
    shift n (.ofOperands op left right) = .ofOperands op (shift n left) (shift n right) := by
  simp only [shift, ofOperands, mapSpans, span_mapSpans, Span.merge, Span.shift, Nat.add_min_add_right,
    Nat.add_max_add_right]

theorem mapSpansAll_eq (g : Span → Span) (es : List Expr) : mapSpansAll g es = es.map (mapSpans g) := by
  induction es with
  | nil => rfl
  | cons e es ih => rw [mapSpansAll, ih, List.map_cons]

end Expr

def TypeExpr.mapSpans (g : Span → Span) : TypeExpr → TypeExpr
  | .basic t s => .basic t (g s)
  | .named name s => .named (name.mapSpan g) (g s)
  | .array element s => .array (element.mapSpans g) (g s)

theorem TypeExpr.span_mapSpans (g : Span → Span) (t : TypeExpr) : (t.mapSpans g).span = g t.span := by
  cases t <;> rfl

namespace Statement

mutual

def mapSpans (g : Span → Span) : Statement → Statement
  | .compound items s => .compound (mapSpansAll g items) (g s)
  | .expression e s => .expression (e.mapSpans g) (g s)
  | .assignment target value s => .assignment (target.mapSpans g) (value.mapSpans g) (g s)
  | .construction type name init s =>
    .construction (type.mapSpans g) (name.mapSpan g) (init.map (Expr.mapSpans g)) (g s)
  | .ifElse condition thenBranch elseBranch s =>
    .ifElse (condition.mapSpans g) (mapSpans g thenBranch) (mapSpans? g elseBranch) (g s)
  | .whileLoop condition body s => .whileLoop (condition.mapSpans g) (mapSpans g body) (g s)
  | .doWhile body condition s => .doWhile (mapSpans g body) (condition.mapSpans g) (g s)
  | .forLoop init condition step body s =>
    .forLoop (mapSpans? g init) (condition.map (Expr.mapSpans g)) (mapSpans? g step) (mapSpans g body) (g s)
  | .ret value s => .ret (value.map (Expr.mapSpans g)) (g s)
  | .breakLoop s => .breakLoop (g s)
  | .continueLoop s => .continueLoop (g s)
  | .empty s => .empty (g s)

def mapSpansAll (g : Span → Span) : List Statement → List Statement
  | [] => []
  | s :: ss => mapSpans g s :: mapSpansAll g ss

def mapSpans? (g : Span → Span) : Option Statement → Option Statement
  | none => none
  | some s => some (mapSpans g s)

end

abbrev shift (n : Nat) (s : Statement) : Statement := s.mapSpans (Span.shift n)

theorem mapSpansAll_eq (g : Span → Span) (ss : List Statement) : mapSpansAll g ss = ss.map (mapSpans g) := by
  induction ss with
  | nil => rfl
  | cons s ss ih => rw [mapSpansAll, ih, List.map_cons]

theorem mapSpans?_eq (g : Span → Span) (s : Option Statement) : mapSpans? g s = s.map (mapSpans g) := by
  cases s <;> rfl

theorem span_mapSpans (g : Span → Span) (s : Statement) : (s.mapSpans g).span = g s.span := by cases s <;> rfl

theorem mapSpans_withSpan (g : Span → Span) (s : Statement) (span : Span) :
    (s.withSpan span).mapSpans g = (s.mapSpans g).withSpan (g span) := by cases s <;> rfl

end Statement

def Parameter.mapSpans (g : Span → Span) (p : Parameter) : Parameter :=
  ⟨p.type.mapSpans g, p.name.mapSpan g, g p.span⟩

def FunctionDef.mapSpans (g : Span → Span) (f : FunctionDef) : FunctionDef :=
  ⟨f.returnType.mapSpans g, f.name.mapSpan g, f.parameters.map (Parameter.mapSpans g), f.body.mapSpans g, g f.span⟩

def CompileUnit.mapSpans (g : Span → Span) (u : CompileUnit) : CompileUnit :=
  ⟨u.file, u.functions.map (FunctionDef.mapSpans g), g u.span⟩

namespace Value

mutual

def mapSpans (g : Span → Span) : Value → Value
  | .mode m => .mode m
  | .identifier id => .identifier (id.mapSpan g)
  | .literal l => .literal l
  | .expr e => .expr (e.mapSpans g)
  | .binaryOp op => .binaryOp op
  | .unaryOp op => .unaryOp op
  | .type t => .type (t.mapSpans g)
  | .statement s => .statement (s.mapSpans g)
  | .parameter p => .parameter (p.mapSpans g)
  | .function f => .function (f.mapSpans g)
  | .compileUnit u => .compileUnit (u.mapSpans g)
  | .list items => .list (mapSpansAll g items)

def mapSpansAll (g : Span → Span) : List Value → List Value
  | [] => []
  | v :: vs => mapSpans g v :: mapSpansAll g vs

end

/-- Everything a value holds, moved on. -/
abbrev shift (n : Nat) (v : Value) : Value := v.mapSpans (Span.shift n)

theorem mapSpansAll_eq (g : Span → Span) (vs : List Value) : mapSpansAll g vs = vs.map (mapSpans g) := by
  induction vs with
  | nil => rfl
  | cons v vs ih => rw [mapSpansAll, ih, List.map_cons]

end Value

end PegFront.Cminor
