import PegFront.Cminor.Units
import PegFront.Proofs.Signature

/-!
# Hooks of the cminor rules

What the rules of cminor know of their contexts is little: their value, the mode an expression is read in,
and the operator that was read last. Every action that lets a match pass sets the value or the operator, and
none of them undoes what another one set, also not where it refuses the match. So the rules conform to
signatures in which most actions need nothing; those that work on the value that was set before them need it.
-/

namespace PegFront.Cminor

/-! ## Signatures -/

def actionEffect : String → Effect
  | "Open" => {}
  | "Op" => { fills := [.var "op"] }
  | "Array" | "Member" | "Invoke" | "Indexed" => { needs := [.value], fills := [.value] }
  | _ => { fills := [.value] }

def callEffect : String → Taking
  | "Arg" | "Item" | "Function" | "Parameter" => {}
  | "Right" => { needs := [.value, .var "op"], fills := [.value], own := true }
  | "Operand" => { needs := [.var "op"], fills := [.value], own := true }
  | _ => { fills := [.value], own := true }

/-- The signature of the rule with a name. -/
def signature (rule : String) : Signature where
  locals := [⟨"op", if rule = "Prefix" then "UnaryOp" else "BinaryOp"⟩]
  actions := actionEffect
  passes _ := ["ParsingContext"]
  takes := callEffect

/-- The only errors that actions report. -/
def Overflows (cause : Cause) : Prop := ∃ literal type, cause = .literalOverflow literal type

abbrev Typed (rule : Rule Value) : Prop := rule.Conforms Value.typeName (signature rule.name) Overflows

/-! ## Layouts -/

theorem ValueKind.typeName_inj {k k' : ValueKind} (h : k.typeName = k'.typeName) : k = k' := by
  cases k <;> cases k' <;> first | rfl | exact absurd h (by decide)

/-- The values of a kind. -/
def ValueKind.Has : ValueKind → Value → Prop
  | .mode, v => ∃ m, v = .mode m
  | .identifier, v => ∃ id, v = .identifier id
  | .literal, v => ∃ l, v = .literal l
  | .expr, v => ∃ e, v = .expr e
  | .binaryOp, v => ∃ op, v = .binaryOp op
  | .unaryOp, v => ∃ op, v = .unaryOp op
  | .type, v => ∃ t, v = .type t
  | .statement, v => ∃ s, v = .statement s
  | .parameter, v => ∃ p, v = .parameter p
  | .function, v => ∃ f, v = .function f
  | .compileUnit, v => ∃ u, v = .compileUnit u
  | .list, v => ∃ items, v = .list items

theorem Value.of_kind {v : Value} {k : ValueKind} (h : v.kind = k) : k.Has v := by
  subst h
  cases v <;> exact ⟨_, rfl⟩

/-- The layout of a rule with a value of the kind. -/
structure Fits (kind : ValueKind) (L : Layout Value) : Prop where
  typeOf : L.typeOf = Value.typeName
  value : L.slotType .value = some kind.typeName
  free : ∀ name ∉ ["ctx", "op"], L.slotType (.var name) = none

theorem fits {rule : Rule Value} {kind : ValueKind} (hv : rule.valueType = some kind.typeName)
    (ha : rule.attributes.all (·.name == "ctx") = true) :
    Fits kind (rule.layout Value.typeName (signature rule.name)) := by
  refine ⟨rfl, hv, fun name hname => ?_⟩
  simp only [List.mem_cons, List.not_mem_nil, or_false, not_or] at hname
  refine Option.map_eq_none_iff.2 (List.find?_eq_none.2 fun a hmem => ?_)
  have hne : a.name ≠ name := by
    rcases List.mem_append.1 hmem with hmem | hmem
    · rw [eq_of_beq (List.all_eq_true.1 ha a hmem)]
      exact fun h => hname.1 h.symm
    · rw [List.mem_singleton.1 hmem]
      exact fun h => hname.2 h.symm
  simpa using hne

section
variable {kind : ValueKind} {L : Layout Value} {ctx : Context Value} {m : Matched}

namespace Fits

theorem kind_eq (hL : Fits kind L) {slot : Slot} {v : Value} {k : ValueKind}
    (hs : L.slotType slot = some k.typeName) (hv : L.slotType slot = some (L.typeOf v)) : v.kind = k := by
  rw [hs, hL.typeOf, Option.some.injEq] at hv
  exact ValueKind.typeName_inj hv.symm

theorem own (hL : Fits kind L) {v : Value} (hv : v.kind = kind) : L.slotType .value = some (L.typeOf v) := by
  rw [hL.value, hL.typeOf, Value.typeName, hv]

/-- An action that sets the value of the rule. -/
theorem pass (hL : Fits kind L) {v : Value} (hv : v.kind = kind) : L.Sets [.value] ctx (true, ctx.setValue v) :=
  ⟨Layout.keeps_setValue (hL.own hv), fun _ => Layout.knows_singleton.2 (Layout.filled_setValue (hL.own hv))⟩

theorem takeAs (hL : Fits kind L) {α : Type} (content? : Value → Option α) (name : String)
    (ctx : Context Value) (hname : name ∉ ["ctx", "op"]) :
    ∃ a ctx', Cminor.takeAs content? name ctx = (a, ctx') ∧ L.Keeps ctx ctx' :=
  ⟨_, _, rfl, Layout.keeps_take_free (hL.free name hname)⟩

theorem takeItems (hL : Fits kind L) {α : Type} (content? : Value → Option α) (name : String)
    (ctx : Context Value) (hname : name ∉ ["ctx", "op"]) :
    ∃ items ctx', Cminor.takeItems content? name ctx = (items, ctx') ∧ L.Keeps ctx ctx' := by
  have hkeeps : L.Keeps ctx (ctx.take name).2 := Layout.keeps_take_free (hL.free name hname)
  unfold Cminor.takeItems
  dsimp only
  cases (ctx.take name).1 with
  | none => exact ⟨_, _, rfl, hkeeps⟩
  | some v => exact ⟨_, _, rfl, hkeeps⟩

/-- A slot that is known holds a value of its kind. -/
theorem known (hL : Fits kind L) {slot : Slot} {k : ValueKind} (hs : L.slotType slot = some k.typeName)
    (hk : L.Filled ctx slot) : ∃ v, ctx.slot? slot = some v ∧ k.Has v := by
  obtain ⟨v, hv, ht⟩ := hk
  exact ⟨v, hv, Value.of_kind (hL.kind_eq hs ht)⟩

end Fits

/-! ## Types -/

theorem basic_sets (hL : Fits .type L) : L.Sets [.value] ctx (Types.basic ctx m) := by
  unfold Types.basic
  split
  · exact hL.pass rfl
  · exact .refuse .rfl

theorem named_sets (hL : Fits .type L) : L.Sets [.value] ctx (Types.named ctx m) := by
  obtain ⟨name, ctx₁, h₁, hk₁⟩ := hL.takeAs Value.identifier? "QualifiedId" ctx (by decide)
  unfold Types.named
  rw [h₁]
  cases name with
  | none => exact .refuse hk₁
  | some name => exact .trans hk₁ (hL.pass rfl)

theorem array_sets (hL : Fits .type L) (hk : L.Knows [.value] ctx) :
    L.Sets [.value] ctx (Types.array ctx m) := by
  obtain ⟨_, hv, t, rfl⟩ := hL.known hL.value (Layout.knows_singleton.1 hk)
  have hv : ctx.value = some (.type t) := hv
  unfold Types.array takeValueAs Context.takeValue
  rw [hv]
  exact hL.pass rfl

/-! ## Literals -/

theorem setInt_runs (hL : Fits .literal L) (text : String) (n : Nat) :
    L.Keeps ctx (Literals.setInt ctx text n).2 ∧
      ((Literals.setInt ctx text n).1 = .pass → L.Knows [.value] (Literals.setInt ctx text n).2) ∧
      ∀ cause, (Literals.setInt ctx text n).1 = .fail cause → Overflows cause := by
  have hpass : L.Sets [.value] ctx (true, Literals.setLiteral ctx (.int n)) := hL.pass rfl
  unfold Literals.setInt
  split
  · exact ⟨hpass.1, fun _ => hpass.2 rfl, nofun⟩
  · refine ⟨.rfl, nofun, ?_⟩
    rintro _ ⟨⟩
    exact ⟨_, _, rfl⟩

theorem char_sets (hL : Fits .literal L) : L.Sets [.value] ctx (Literals.char ctx m) := by
  unfold Literals.char
  split
  · exact hL.pass rfl
  · exact .refuse .rfl

theorem string_sets (hL : Fits .literal L) : L.Sets [.value] ctx (Literals.string ctx m) := by
  unfold Literals.string
  split
  · exact hL.pass rfl
  · exact .refuse .rfl

/-! ## Expressions -/

/-- Reading an operator. -/
theorem setOp_sets {v : Value} (h : L.slotType (.var "op") = some (L.typeOf v)) :
    L.Sets [.var "op"] ctx (true, ctx.set "op" v) :=
  ⟨Layout.keeps_set h, fun _ => Layout.knows_singleton.2 (Layout.filled_set h)⟩

theorem setBinaryOp_sets (hL : Fits .expr L) (hop : L.slotType (.var "op") = some "BinaryOp") :
    L.Sets [.var "op"] ctx (Expressions.setBinaryOp ctx m) := by
  unfold Expressions.setBinaryOp
  split
  · exact setOp_sets (by rw [hop, hL.typeOf]; rfl)
  · exact .refuse .rfl

theorem setUnaryOp_sets (hL : Fits .expr L) (hop : L.slotType (.var "op") = some "UnaryOp") :
    L.Sets [.var "op"] ctx (Expressions.setUnaryOp ctx m) := by
  unfold Expressions.setUnaryOp
  split
  · exact setOp_sets (by rw [hop, hL.typeOf]; rfl)
  · exact .refuse .rfl

/-- The value so far is taken out and put back as the left operand. -/
theorem foldBinary_takes (hL : Fits .expr L) (hop : L.slotType (.var "op") = some ValueKind.binaryOp.typeName) :
    L.Takes (callEffect "Right") Expressions.foldBinary := by
  intro ctx right hneeds hown
  obtain ⟨_, hv, left, rfl⟩ := hL.known hL.value (hneeds _ List.mem_cons_self)
  obtain ⟨_, ho, op, rfl⟩ := hL.known hop (hneeds _ (List.mem_cons_of_mem _ List.mem_cons_self))
  obtain ⟨e, rfl⟩ := Value.of_kind (hL.kind_eq hL.value (hown rfl))
  have hv : ctx.value = some (.expr left) := hv
  have ho : ctx.get? "op" = some (.binaryOp op) := ho
  have hpass : L.Sets [.value] ctx (true, ctx.setValue (.expr (.ofOperands op left e))) := hL.pass rfl
  simp only [Expressions.foldBinary, takeValueAs, Context.takeValue, hv, ho]
  exact ⟨hpass.1, hpass.2 rfl⟩

theorem applyUnary_takes (hL : Fits .expr L) (hop : L.slotType (.var "op") = some ValueKind.unaryOp.typeName) :
    L.Takes (callEffect "Operand") Expressions.applyUnary := by
  intro ctx operand hneeds hown
  obtain ⟨_, ho, op, rfl⟩ := hL.known hop (hneeds _ List.mem_cons_self)
  obtain ⟨e, rfl⟩ := Value.of_kind (hL.kind_eq hL.value (hown rfl))
  have ho : ctx.get? "op" = some (.unaryOp op) := ho
  have hpass : L.Sets [.value] ctx
      (true, ctx.setValue (.expr (.unary op e ⟨e.span.file, ctx.start, e.span.stop⟩))) := hL.pass rfl
  simp only [Expressions.applyUnary, ho]
  exact ⟨hpass.1, hpass.2 rfl⟩

theorem wrapValue_sets (hL : Fits .expr L) (hk : L.Knows [.value] ctx) (wrap : Expr → Span → Expr) :
    L.Sets [.value] ctx (Expressions.wrapValue wrap ctx m) := by
  obtain ⟨_, hv, e, rfl⟩ := hL.known hL.value (Layout.knows_singleton.1 hk)
  have hv : ctx.value = some (.expr e) := hv
  unfold Expressions.wrapValue takeValueAs Context.takeValue
  rw [hv]
  exact hL.pass rfl

theorem member_sets (hL : Fits .expr L) (hk : L.Knows [.value] ctx) :
    L.Sets [.value] ctx (Expressions.member ctx m) := by
  obtain ⟨id, ctx₁, h₁, hk₁⟩ := hL.takeAs Value.identifier? "Identifier" ctx (by decide)
  unfold Expressions.member
  rw [h₁]
  cases id with
  | none => exact .refuse hk₁
  | some id => exact .trans hk₁ (wrapValue_sets hL (hk.keeps hk₁) _)

theorem invoke_sets (hL : Fits .expr L) (hk : L.Knows [.value] ctx) :
    L.Sets [.value] ctx (Expressions.invoke ctx m) := by
  obtain ⟨arguments, ctx₁, h₁, hk₁⟩ := hL.takeItems Value.expr? "args" ctx (by decide)
  unfold Expressions.invoke
  rw [h₁]
  cases arguments with
  | none => exact .refuse hk₁
  | some arguments => exact .trans hk₁ (wrapValue_sets hL (hk.keeps hk₁) _)

theorem indexed_sets (hL : Fits .expr L) (hk : L.Knows [.value] ctx) :
    L.Sets [.value] ctx (Expressions.indexed ctx m) := by
  obtain ⟨index, ctx₁, h₁, hk₁⟩ := hL.takeAs Value.expr? "Index" ctx (by decide)
  unfold Expressions.indexed
  rw [h₁]
  cases index with
  | none => exact .refuse hk₁
  | some index => exact .trans hk₁ (wrapValue_sets hL (hk.keeps hk₁) _)

theorem literal_sets (hL : Fits .expr L) : L.Sets [.value] ctx (Expressions.literal ctx m) := by
  obtain ⟨l, ctx₁, h₁, hk₁⟩ := hL.takeAs Value.literal? "Literal" ctx (by decide)
  unfold Expressions.literal
  split
  · exact .refuse .rfl
  rw [h₁]
  cases l with
  | none => exact .refuse hk₁
  | some l => exact .trans hk₁ (hL.pass rfl)

theorem name_sets (hL : Fits .expr L) : L.Sets [.value] ctx (Expressions.name ctx m) := by
  obtain ⟨id, ctx₁, h₁, hk₁⟩ := hL.takeAs Value.identifier? "Identifier" ctx (by decide)
  unfold Expressions.name
  rw [h₁]
  cases id with
  | none => exact .refuse hk₁
  | some id => exact .trans hk₁ (hL.pass rfl)

/-- Lists of values are kept in variables that have no type. -/
theorem pushItem_takes {name : String} (h : L.slotType (.var name) = none) : L.Takes {} (pushItem name) := by
  intro ctx v _ _
  refine ⟨?_, Layout.knows_nil⟩
  unfold pushItem
  split
  · exact Layout.keeps_set_free _ h
  · exact Layout.keeps_set_free _ h

theorem startList_sets {name : String} (h : L.slotType (.var name) = none) :
    L.Sets [] ctx (true, ctx.set name (.list [])) := ⟨Layout.keeps_set_free _ h, fun _ => Layout.knows_nil⟩

/-! ## Statements -/

theorem terminate_sets (hL : Fits .statement L) : L.Sets [.value] ctx (Statements.terminate ctx m) := by
  unfold Statements.terminate
  split
  · exact hL.pass rfl
  · exact .refuse .rfl

theorem closeBlock_sets (hL : Fits .statement L) : L.Sets [.value] ctx (Statements.closeBlock ctx m) := by
  obtain ⟨items, ctx₁, h₁, hk₁⟩ := hL.takeItems Value.statement? "items" ctx (by decide)
  unfold Statements.closeBlock
  rw [h₁]
  cases items with
  | none => exact .refuse hk₁
  | some items => exact .trans hk₁ (hL.pass rfl)

theorem ifElse_sets (hL : Fits .statement L) : L.Sets [.value] ctx (Statements.ifElse ctx m) := by
  obtain ⟨condition, ctx₁, h₁, hk₁⟩ := hL.takeAs Value.expr? "Cond" ctx (by decide)
  obtain ⟨thenBranch, ctx₂, h₂, hk₂⟩ := hL.takeAs Value.statement? "Then" ctx₁ (by decide)
  obtain ⟨elseBranch, ctx₃, h₃, hk₃⟩ := hL.takeAs Value.statement? "Else" ctx₂ (by decide)
  simp only [Statements.ifElse, h₁, h₂, h₃]
  split
  · exact .trans (hk₁.trans (hk₂.trans hk₃)) (hL.pass rfl)
  · exact .refuse (hk₁.trans hk₂)

theorem whileLoop_sets (hL : Fits .statement L) : L.Sets [.value] ctx (Statements.whileLoop ctx m) := by
  obtain ⟨condition, ctx₁, h₁, hk₁⟩ := hL.takeAs Value.expr? "Cond" ctx (by decide)
  obtain ⟨body, ctx₂, h₂, hk₂⟩ := hL.takeAs Value.statement? "Body" ctx₁ (by decide)
  simp only [Statements.whileLoop, h₁, h₂]
  split
  · exact .trans (hk₁.trans hk₂) (hL.pass rfl)
  · exact .refuse (hk₁.trans hk₂)

theorem doWhile_sets (hL : Fits .statement L) : L.Sets [.value] ctx (Statements.doWhile ctx m) := by
  obtain ⟨body, ctx₁, h₁, hk₁⟩ := hL.takeAs Value.statement? "Body" ctx (by decide)
  obtain ⟨condition, ctx₂, h₂, hk₂⟩ := hL.takeAs Value.expr? "Cond" ctx₁ (by decide)
  simp only [Statements.doWhile, h₁, h₂]
  split
  · exact .trans (hk₁.trans hk₂) (hL.pass rfl)
  · exact .refuse (hk₁.trans hk₂)

theorem forLoop_sets (hL : Fits .statement L) : L.Sets [.value] ctx (Statements.forLoop ctx m) := by
  obtain ⟨body, ctx₁, h₁, hk₁⟩ := hL.takeAs Value.statement? "Body" ctx (by decide)
  obtain ⟨init, ctx₂, h₂, hk₂⟩ := hL.takeAs Value.statement? "Init" ctx₁ (by decide)
  obtain ⟨condition, ctx₃, h₃, hk₃⟩ := hL.takeAs Value.expr? "Cond" ctx₂ (by decide)
  obtain ⟨step, ctx₄, h₄, hk₄⟩ := hL.takeAs Value.statement? "Step" ctx₃ (by decide)
  simp only [Statements.forLoop, h₁, h₂, h₃, h₄]
  split
  · exact .trans (hk₁.trans (hk₂.trans (hk₃.trans hk₄))) (hL.pass rfl)
  · exact .refuse hk₁

theorem ret_sets (hL : Fits .statement L) : L.Sets [.value] ctx (Statements.ret ctx m) := by
  obtain ⟨value, ctx₁, h₁, hk₁⟩ := hL.takeAs Value.expr? "Value" ctx (by decide)
  unfold Statements.ret
  rw [h₁]
  exact .trans hk₁ (hL.pass rfl)

theorem construction_sets (hL : Fits .statement L) :
    L.Sets [.value] ctx (Statements.construction ctx m) := by
  obtain ⟨type, ctx₁, h₁, hk₁⟩ := hL.takeAs Value.type? "TypeExpr" ctx (by decide)
  obtain ⟨name, ctx₂, h₂, hk₂⟩ := hL.takeAs Value.identifier? "Identifier" ctx₁ (by decide)
  obtain ⟨init, ctx₃, h₃, hk₃⟩ := hL.takeAs Value.expr? "Init" ctx₂ (by decide)
  simp only [Statements.construction, h₁, h₂, h₃]
  split
  · exact .trans (hk₁.trans (hk₂.trans hk₃)) (hL.pass rfl)
  · exact .refuse (hk₁.trans hk₂)

theorem assignment_sets (hL : Fits .statement L) : L.Sets [.value] ctx (Statements.assignment ctx m) := by
  obtain ⟨target, ctx₁, h₁, hk₁⟩ := hL.takeAs Value.expr? "Target" ctx (by decide)
  obtain ⟨value, ctx₂, h₂, hk₂⟩ := hL.takeAs Value.expr? "Value" ctx₁ (by decide)
  simp only [Statements.assignment, h₁, h₂]
  split
  · exact .trans (hk₁.trans hk₂) (hL.pass rfl)
  · exact .refuse (hk₁.trans hk₂)

theorem expressionBody_sets (hL : Fits .statement L) :
    L.Sets [.value] ctx (Statements.expressionBody ctx m) := by
  obtain ⟨e, ctx₁, h₁, hk₁⟩ := hL.takeAs Value.expr? "Expr" ctx (by decide)
  unfold Statements.expressionBody
  rw [h₁]
  cases e with
  | none => exact .refuse hk₁
  | some e => exact .trans hk₁ (hL.pass rfl)

/-! ## Compile units -/

theorem unit_sets (hL : Fits .compileUnit L) : L.Sets [.value] ctx (Units.unit ctx m) := by
  obtain ⟨functions, ctx₁, h₁, hk₁⟩ := hL.takeItems Value.function? "functions" ctx (by decide)
  unfold Units.unit
  rw [h₁]
  cases functions with
  | none => exact .refuse hk₁
  | some functions => exact .trans hk₁ (hL.pass rfl)

theorem function_sets (hL : Fits .function L) : L.Sets [.value] ctx (Units.function ctx m) := by
  obtain ⟨returnType, ctx₁, h₁, hk₁⟩ := hL.takeAs Value.type? "ReturnType" ctx (by decide)
  obtain ⟨name, ctx₂, h₂, hk₂⟩ := hL.takeAs Value.identifier? "Identifier" ctx₁ (by decide)
  obtain ⟨body, ctx₃, h₃, hk₃⟩ := hL.takeAs Value.statement? "Body" ctx₂ (by decide)
  obtain ⟨parameters, ctx₄, h₄, hk₄⟩ := hL.takeItems Value.parameter? "parameters" ctx₃ (by decide)
  have hkeeps := hk₁.trans (hk₂.trans (hk₃.trans hk₄))
  simp only [Units.function, h₁, h₂, h₃, h₄]
  split
  · exact .trans hkeeps (hL.pass rfl)
  · exact .refuse hkeeps

theorem parameter_sets (hL : Fits .parameter L) : L.Sets [.value] ctx (Units.parameter ctx m) := by
  obtain ⟨type, ctx₁, h₁, hk₁⟩ := hL.takeAs Value.type? "TypeExpr" ctx (by decide)
  obtain ⟨name, ctx₂, h₂, hk₂⟩ := hL.takeAs Value.identifier? "Identifier" ctx₁ (by decide)
  simp only [Units.parameter, h₁, h₂]
  split
  · exact .trans (hk₁.trans hk₂) (hL.pass rfl)
  · exact .refuse (hk₁.trans hk₂)

end

/-! ## Rules -/

theorem lexical_typed : ∀ rule ∈ (Lexical.grammar : GrammarDecl Value).rules, Typed rule := by
  have hbare : ∀ rule ∈ (Lexical.grammar : GrammarDecl Value).rules,
      rule.actions = [] ∧ rule.preCalls = [] ∧ rule.postCalls = [] := by
    simp [Lexical.grammar, Rule.new]
  intro rule hrule
  obtain ⟨ha, hp, ht⟩ := hbare rule hrule
  exact .bare ha hp ht

theorem keywords_typed : ∀ rule ∈ Keywords.grammar.rules, Typed rule := by
  simp only [Keywords.grammar, List.forall_mem_cons, List.not_mem_nil, false_implies, implies_true, and_true]
  exact .bare rfl rfl rfl

theorem identifier_typed : Typed Identifiers.identifier :=
  .action (.bare rfl rfl rfl) fun _ _ _ => (fits rfl rfl).pass rfl

theorem qualifiedId_typed : Typed Identifiers.qualifiedId :=
  .action (.bare rfl rfl rfl) fun _ _ _ => (fits rfl rfl).pass rfl

theorem identifiers_typed : ∀ rule ∈ Identifiers.grammar.rules, Typed rule := by
  simp only [Identifiers.grammar, List.forall_mem_cons, List.not_mem_nil, false_implies, implies_true, and_true]
  exact ⟨identifier_typed, qualifiedId_typed⟩

theorem typeExpr_typed : Typed Types.typeExpr := by
  refine .predicate (.predicate (.predicate (.bare rfl rfl rfl) ?_) ?_) ?_
  · exact fun _ _ _ => basic_sets (fits rfl rfl)
  · exact fun _ _ _ => named_sets (fits rfl rfl)
  · exact fun _ _ hk => array_sets (fits rfl rfl) hk

theorem types_typed : ∀ rule ∈ Types.grammar.rules, Typed rule := by
  simp only [Types.grammar, List.forall_mem_cons, List.not_mem_nil, false_implies, implies_true, and_true]
  exact typeExpr_typed

/-- A rule whose value is that of any one of several calls. -/
theorem yields_typed {sig : Signature} {rule : Rule Value} (h : rule.Conforms Value.typeName sig Overflows)
    (names : List String) (hn : ∀ n ∈ names, (sig.takes n).own = true ∧ (sig.takes n).fills = [.value]) :
    (names.foldl (·.yields ·) rule).Conforms Value.typeName sig Overflows := by
  induction names generalizing rule with
  | nil => exact h
  | cons name names ih =>
    obtain ⟨hown, hfills⟩ := hn name List.mem_cons_self
    exact ih (h.yields hown hfills) fun n hmem => hn n (List.mem_cons_of_mem _ hmem)

theorem literal_typed : Typed Literals.literal :=
  yields_typed (.bare rfl rfl rfl) _ (by decide)

theorem boolean_typed : Typed Literals.boolean :=
  .action (.action (.bare rfl rfl rfl) fun _ _ _ => (fits rfl rfl).pass rfl) fun _ _ _ => (fits rfl rfl).pass rfl

theorem floatingRule_typed : Typed Literals.floatingRule :=
  .action (.bare rfl rfl rfl) fun _ _ _ => (fits rfl rfl).pass rfl

theorem integer_typed : Typed Literals.integer :=
  .checked (.checked (.bare rfl rfl rfl) fun _ _ _ => setInt_runs (fits rfl rfl) _ _)
    fun _ _ _ => setInt_runs (fits rfl rfl) _ _

theorem charRule_typed : Typed Literals.charRule :=
  .predicate (.bare rfl rfl rfl) fun _ _ _ => char_sets (fits rfl rfl)

theorem stringRule_typed : Typed Literals.stringRule :=
  .predicate (.bare rfl rfl rfl) fun _ _ _ => string_sets (fits rfl rfl)

theorem null_typed : Typed Literals.null :=
  .action (.bare rfl rfl rfl) fun _ _ _ => (fits rfl rfl).pass rfl

theorem literals_typed : ∀ rule ∈ Literals.grammar.rules, Typed rule := by
  simp only [Literals.grammar, List.forall_mem_cons, List.not_mem_nil, false_implies, implies_true, and_true]
  exact ⟨literal_typed, boolean_typed, floatingRule_typed, integer_typed, charRule_typed, stringRule_typed,
    null_typed⟩

/-- A call of an expression rule that passes the mode on. -/
theorem forward_typed {sig : Signature} {rule : Rule Value} {label : String}
    (h : rule.Conforms Value.typeName sig Overflows) (ha : rule.attributes = [⟨"ctx", "ParsingContext"⟩])
    (hp : sig.passes label = ["ParsingContext"]) :
    (rule.forward label ["ctx"]).Conforms Value.typeName sig Overflows := by
  refine h.forward (fun n hn => ?_) ?_
  · rw [List.mem_singleton.1 hn, Rule.attributeSlots, ha]
    exact List.mem_cons_self
  · simp [Rule.slotType, ha, hp]

theorem expression_typed : Typed Expressions.expression :=
  .yields (forward_typed (.bare rfl rfl rfl) rfl rfl) rfl rfl

theorem binaryLevel_typed {name : String} (hname : name ≠ "Prefix") (operand : String) (operators : Pattern) :
    Typed (Expressions.binaryLevel name operand operators) := by
  have hop : (Expressions.binaryLevel name operand operators).slotType (signature name) (.var "op") =
      some "BinaryOp" := by
    show some (if name = "Prefix" then "UnaryOp" else "BinaryOp") = _
    rw [if_neg hname]
  refine .postCall (.predicate (.yields (forward_typed (forward_typed (.bare rfl rfl rfl) rfl rfl) rfl rfl)
    rfl rfl) ?_) ?_
  · exact fun _ _ _ => setBinaryOp_sets (fits rfl rfl) hop
  · exact foldBinary_takes (fits rfl rfl) hop

theorem prefixRule_typed : Typed Expressions.prefixRule := by
  refine .postCall (.predicate (.yields (forward_typed (forward_typed (.bare rfl rfl rfl) rfl rfl) rfl rfl)
    rfl rfl) ?_) ?_
  · exact fun _ _ _ => setUnaryOp_sets (fits rfl rfl) rfl
  · exact applyUnary_takes (fits rfl rfl) rfl

theorem postfixRule_typed : Typed Expressions.postfixRule := by
  refine .predicate (.predicate (.predicate (.action (.postCall (.preCall (.preCall (.yields
    (forward_typed (.bare rfl rfl rfl) rfl rfl) rfl rfl) ?_) ?_) ?_) ?_) ?_) ?_) ?_
  · exact fun _ _ => rfl
  · exact fun _ _ => rfl
  · exact pushItem_takes rfl
  · exact fun _ _ _ => startList_sets rfl
  · exact fun _ _ hk => member_sets (fits rfl rfl) hk
  · exact fun _ _ hk => invoke_sets (fits rfl rfl) hk
  · exact fun _ _ hk => indexed_sets (fits rfl rfl) hk

theorem primary_typed : Typed Expressions.primary := by
  refine .predicate (.action (.predicate (.yields (forward_typed (.bare rfl rfl rfl) rfl rfl) rfl rfl)
    ?_) ?_) ?_
  · exact fun _ _ _ => literal_sets (fits rfl rfl)
  · exact fun _ _ _ => (fits rfl rfl).pass rfl
  · exact fun _ _ _ => name_sets (fits rfl rfl)

theorem expressions_typed : ∀ rule ∈ Expressions.grammar.rules, Typed rule := by
  simp only [Expressions.grammar, Expressions.binaryLevels, List.cons_append, List.nil_append,
    List.forall_mem_cons, List.not_mem_nil, false_implies, implies_true, and_true]
  refine ⟨expression_typed, ?_, ?_, ?_, ?_, ?_, ?_, ?_, prefixRule_typed, postfixRule_typed, primary_typed⟩
  all_goals exact binaryLevel_typed (by decide) _ _

theorem oneOf_typed (name : String) {rules : List String}
    (hn : ∀ n ∈ rules, (callEffect n).own = true ∧ (callEffect n).fills = [.value]) :
    (Statements.oneOf name rules).Conforms Value.typeName (signature name) Overflows :=
  yields_typed (.bare rfl rfl rfl) rules hn

theorem terminated_typed (name body : String) : Typed (Statements.terminated name body) :=
  .predicate (.yields (.bare rfl rfl rfl) rfl rfl) fun _ _ _ => terminate_sets (fits rfl rfl)

theorem compoundRule_typed : Typed Statements.compoundRule := by
  refine .predicate (.postCall (.action (.bare rfl rfl rfl) ?_) ?_) ?_
  · exact fun _ _ _ => startList_sets rfl
  · exact pushItem_takes rfl
  · exact fun _ _ _ => closeBlock_sets (fits rfl rfl)

theorem ifRule_typed : Typed Statements.ifRule :=
  .predicate (.preCall (.bare rfl rfl rfl) fun _ _ => rfl) fun _ _ _ => ifElse_sets (fits rfl rfl)

theorem whileRule_typed : Typed Statements.whileRule :=
  .predicate (.preCall (.bare rfl rfl rfl) fun _ _ => rfl) fun _ _ _ => whileLoop_sets (fits rfl rfl)

theorem doWhileRule_typed : Typed Statements.doWhileRule :=
  .predicate (.preCall (.bare rfl rfl rfl) fun _ _ => rfl) fun _ _ _ => doWhile_sets (fits rfl rfl)

theorem forRule_typed : Typed Statements.forRule :=
  .predicate (.preCall (.bare rfl rfl rfl) fun _ _ => rfl) fun _ _ _ => forLoop_sets (fits rfl rfl)

theorem returnRule_typed : Typed Statements.returnRule :=
  .predicate (.preCall (.bare rfl rfl rfl) fun _ _ => rfl) fun _ _ _ => ret_sets (fits rfl rfl)

theorem breakRule_typed : Typed Statements.breakRule :=
  .predicate (.bare rfl rfl rfl) fun _ _ _ => (fits rfl rfl).pass rfl

theorem continueRule_typed : Typed Statements.continueRule :=
  .predicate (.bare rfl rfl rfl) fun _ _ _ => (fits rfl rfl).pass rfl

theorem constructionBodyRule_typed : Typed Statements.constructionBodyRule :=
  .predicate (.preCall (.bare rfl rfl rfl) fun _ _ => rfl) fun _ _ _ => construction_sets (fits rfl rfl)

theorem assignmentBodyRule_typed : Typed Statements.assignmentBodyRule :=
  .predicate (.preCall (.preCall (.bare rfl rfl rfl) fun _ _ => rfl) fun _ _ => rfl)
    fun _ _ _ => assignment_sets (fits rfl rfl)

theorem expressionBodyRule_typed : Typed Statements.expressionBodyRule :=
  .predicate (.preCall (.bare rfl rfl rfl) fun _ _ => rfl) fun _ _ _ => expressionBody_sets (fits rfl rfl)

theorem emptyRule_typed : Typed Statements.emptyRule :=
  .action (.bare rfl rfl rfl) fun _ _ _ => (fits rfl rfl).pass rfl

theorem statements_typed : ∀ rule ∈ Statements.grammar.rules, Typed rule := by
  simp only [Statements.grammar, List.forall_mem_cons, List.not_mem_nil, false_implies, implies_true, and_true]
  exact ⟨oneOf_typed _ (by decide), compoundRule_typed, ifRule_typed, whileRule_typed, doWhileRule_typed,
    forRule_typed, returnRule_typed, breakRule_typed, continueRule_typed, terminated_typed _ _,
    constructionBodyRule_typed, terminated_typed _ _, assignmentBodyRule_typed, terminated_typed _ _,
    expressionBodyRule_typed, emptyRule_typed, oneOf_typed _ (by decide), oneOf_typed _ (by decide)⟩

theorem unitRule_typed : Typed Units.unitRule :=
  .predicate (.postCall (.bare rfl rfl rfl) (pushItem_takes rfl))
    fun _ _ _ => unit_sets (fits rfl rfl)

theorem functionRule_typed : Typed Units.functionRule :=
  .predicate (.postCall (.bare rfl rfl rfl) (pushItem_takes rfl))
    fun _ _ _ => function_sets (fits rfl rfl)

theorem parameterRule_typed : Typed Units.parameterRule :=
  .predicate (.bare rfl rfl rfl) fun _ _ _ => parameter_sets (fits rfl rfl)

theorem units_typed : ∀ rule ∈ Units.grammar.rules, Typed rule := by
  simp only [Units.grammar, List.forall_mem_cons, List.not_mem_nil, false_implies, implies_true, and_true]
  exact ⟨unitRule_typed, functionRule_typed, parameterRule_typed⟩

end PegFront.Cminor
