import PegFront.Proofs.Cminor.Parse
import PegFront.Proofs.Cminor.Trees

/-!
# Hooks of the cminor rules, further on

An action that sees the same text further on, in a context of values that were read further on, makes the same of it
further on. This holds of every hook of cminor, since they look at the texts of what was matched, and of the spans
they only take ends.
-/

namespace PegFront

variable {V : Type} {n : Nat} {move : V → V} {rule : Rule V} {name : String}

/-! ## Contexts -/

namespace Context

theorem move_get? (ctx : Context V) (name : String) : (ctx.move n move).get? name = (ctx.get? name).map move := by
  rcases ctx with ⟨vars, value, start⟩
  induction vars with
  | nil => rfl
  | cons b vars ih =>
    show List.lookup name ((b.1, move b.2) :: Bindings.mapValues move vars) = Option.map move (List.lookup name (b :: vars))
    rw [List.lookup_cons, List.lookup_cons]
    cases name == b.1 with
    | true => rfl
    | false => exact ih

theorem move_set (ctx : Context V) (name : String) (v : V) :
    (ctx.set name v).move n move = (ctx.move n move).set name (move v) := by
  simp only [set, Context.move, Bindings.mapValues_insert]

theorem move_take (ctx : Context V) (name : String) :
    (ctx.move n move).take name = ((ctx.take name).1.map move, (ctx.take name).2.move n move) := by
  refine Prod.ext (ctx.move_get? name) ?_
  simp only [take, Context.move, Bindings.erase, Bindings.mapValues, List.filter_map]
  rfl

end Context

/-! ## Building rules that move -/

namespace Rule.Moves

theorem bare (ha : rule.actions = []) (hp : rule.preCalls = []) (ht : rule.postCalls = []) : rule.Moves n move where
  action := by
    intro name f h
    simp [Rule.action?, ha, Bindings.get?] at h
  arguments := by simp [Rule.argumentsOf, Rule.preCall?, hp, Bindings.get?]
  takeUp := by simp [Rule.takeUp, Rule.postCall?, ht, Bindings.get?, Context.move_set]

theorem checked (h : rule.Moves n move) {f : Action V}
    (hf : ∀ ctx m, f (ctx.move n move) (m.shift n) = ((f ctx m).1, (f ctx m).2.move n move)) :
    (rule.checked name f).Moves n move := by
  refine ⟨fun hg => ?_, h.arguments, h.takeUp⟩
  rcases Bindings.get?_insert_eq_some hg with ⟨rfl, rfl⟩ | hg
  · exact hf
  · exact h.action hg

theorem predicate (h : rule.Moves n move) {f : Context V → Matched → Bool × Context V}
    (hf : ∀ ctx m, f (ctx.move n move) (m.shift n) = ((f ctx m).1, (f ctx m).2.move n move)) :
    (rule.predicate name f).Moves n move := by
  refine h.checked fun ctx m => ?_
  rw [hf]

theorem action' (h : rule.Moves n move) {f : Context V → Matched → Context V}
    (hf : ∀ ctx m, f (ctx.move n move) (m.shift n) = (f ctx m).move n move) : (rule.action name f).Moves n move := by
  refine h.checked fun ctx m => ?_
  rw [hf]

theorem preCall (h : rule.Moves n move) {f : PreCall V} (hf : ∀ ctx, f (ctx.move n move) = (f ctx).map move) :
    (rule.preCall name f).Moves n move := by
  refine ⟨h.action, fun call ctx => ?_, h.takeUp⟩
  by_cases he : call.label = name
  · have hget : (rule.preCall name f).preCall? call.label = some f := by
      rw [he]
      exact Bindings.get?_insert_self _ _
    simp only [Rule.argumentsOf, hget, hf]
  · have hget : (rule.preCall name f).preCall? call.label = rule.preCall? call.label := Bindings.get?_insert_ne _ _ he
    have harguments := h.arguments call ctx
    simp only [Rule.argumentsOf, hget] at harguments ⊢
    exact harguments

theorem postCall (h : rule.Moves n move) {f : PostCall V}
    (hf : ∀ ctx v, f (ctx.move n move) (move v) = (f ctx v).move n move) : (rule.postCall name f).Moves n move := by
  refine ⟨h.action, h.arguments, fun label ctx v => ?_⟩
  by_cases he : label = name
  · have hget : (rule.postCall name f).postCall? label = some f := by
      rw [he]
      exact Bindings.get?_insert_self _ _
    simp only [Rule.takeUp, hget, hf]
  · have hget : (rule.postCall name f).postCall? label = rule.postCall? label := Bindings.get?_insert_ne _ _ he
    have htake := h.takeUp label ctx v
    simp only [Rule.takeUp, hget] at htake ⊢
    exact htake

theorem yields (h : rule.Moves n move) : (rule.yields name).Moves n move := h.postCall fun _ _ => rfl

theorem forward (h : rule.Moves n move) (names : List String) : (rule.forward name names).Moves n move := by
  let forwarding : Rule V := { rule with
    forwarded := names.foldl (fun fs n => if fs.contains n then fs else fs ++ [n]) rule.forwarded }
  have hforwarding : forwarding.Moves n move := ⟨h.action, h.arguments, h.takeUp⟩
  refine hforwarding.preCall fun ctx => ?_
  rw [List.map_filterMap]
  exact List.filterMap_congr fun name _ => ctx.move_get? name

/-- Neither the pattern nor the grammar of a rule matters to its hooks. -/
theorem redefine (h : rule.Moves n move) (grammar : String) (definition : Pattern) :
    { rule with grammar, definition }.Moves n move := ⟨h.action, h.arguments, h.takeUp⟩

end Rule.Moves

namespace Cminor

/-! ## Values in contexts -/

/-- A rule of cminor does the same `n` bytes further on. -/
abbrev Moving (n : Nat) (rule : Rule Value) : Prop := rule.Moves n (Value.shift n)

/-- A context further on. -/
abbrev onward (n : Nat) (ctx : Context Value) : Context Value := ctx.move n (Value.shift n)

section
variable {n : Nat} {α : Type} {content? : Value → Option α} {g : α → α}

/-- The content of a value moves with it. -/
def Lifts (n : Nat) (content? : Value → Option α) (g : α → α) : Prop :=
  ∀ v : Value, content? (v.shift n) = (content? v).map g

theorem lifts_identifier : Lifts n Value.identifier? (Identifier.mapSpan (Span.shift n)) := by rintro ⟨⟩ <;> rfl

theorem lifts_literal : Lifts n Value.literal? id := by rintro ⟨⟩ <;> rfl

theorem lifts_expr : Lifts n Value.expr? (Expr.shift n) := by rintro ⟨⟩ <;> rfl

theorem lifts_binaryOp : Lifts n Value.binaryOp? id := by rintro ⟨⟩ <;> rfl

theorem lifts_unaryOp : Lifts n Value.unaryOp? id := by rintro ⟨⟩ <;> rfl

theorem lifts_type : Lifts n Value.type? (TypeExpr.mapSpans (Span.shift n)) := by rintro ⟨⟩ <;> rfl

theorem lifts_statement : Lifts n Value.statement? (Statement.shift n) := by rintro ⟨⟩ <;> rfl

theorem lifts_parameter : Lifts n Value.parameter? (Parameter.mapSpans (Span.shift n)) := by rintro ⟨⟩ <;> rfl

theorem lifts_function : Lifts n Value.function? (FunctionDef.mapSpans (Span.shift n)) := by rintro ⟨⟩ <;> rfl

theorem lifts_mode : Lifts n Value.mode? id := by rintro ⟨⟩ <;> rfl

theorem Lifts.bind (h : Lifts n content? g) (v : Option Value) :
    (v.map (Value.shift n)).bind content? = (v.bind content?).map g := by
  cases v with
  | none => rfl
  | some v => exact h v

theorem Lifts.takeAs (h : Lifts n content? g) (name : String) (ctx : Context Value) :
    takeAs content? name (onward n ctx) =
      ((takeAs content? name ctx).1.map g, onward n (takeAs content? name ctx).2) := by
  simp only [Cminor.takeAs, onward, Context.move_take, h.bind]

theorem Lifts.takeValueAs (h : Lifts n content? g) (ctx : Context Value) :
    takeValueAs content? (onward n ctx) =
      ((takeValueAs content? ctx).1.map g, onward n (takeValueAs content? ctx).2) :=
  Prod.ext (h.bind ctx.value) rfl

theorem Lifts.mapM (h : Lifts n content? g) (items : List Value) :
    (Value.mapSpansAll (Span.shift n) items).mapM content? = (items.mapM content?).map (List.map g) := by
  induction items with
  | nil => rfl
  | cons v items ih =>
    rw [Value.mapSpansAll, List.mapM_cons, List.mapM_cons, ih, h v]
    cases content? v with
    | none => rfl
    | some a => cases items.mapM content? <;> rfl

theorem Lifts.takeItems (h : Lifts n content? g) (name : String) (ctx : Context Value) :
    takeItems content? name (onward n ctx) =
      ((takeItems content? name ctx).1.map (List.map g), onward n (takeItems content? name ctx).2) := by
  simp only [Cminor.takeItems, onward, Context.move_take]
  rcases (ctx.take name).1 with _ | v
  · rfl
  · refine Prod.ext ?_ rfl
    cases v with
    | list items => exact h.mapM items
    | _ => rfl

end

theorem modeOf_onward (n : Nat) (ctx : Context Value) : modeOf (onward n ctx) = modeOf ctx := by
  simp only [modeOf, onward, Context.move_get?, lifts_mode.bind, Option.map_id, id_eq]

theorem pushItem_onward (n : Nat) (name : String) (ctx : Context Value) (v : Value) :
    pushItem name (onward n ctx) (v.shift n) = onward n (pushItem name ctx v) := by
  have hset : ∀ items : List Value,
      onward n (ctx.set name (.list items)) = (onward n ctx).set name (.list (items.map (Value.shift n))) := by
    intro items
    rw [onward, Context.move_set]
    simp only [Value.shift, Value.mapSpans, Value.mapSpansAll_eq]
  unfold pushItem
  rw [onward, Context.move_get?]
  rcases ctx.get? name with _ | w
  · exact (hset [v]).symm
  · cases w with
    | list items =>
      have hpush := hset (items ++ [v])
      rw [List.map_append, ← Value.mapSpansAll_eq] at hpush
      exact hpush.symm
    | _ => exact (hset [v]).symm

/-! ## Actions -/

/-- The action makes the same of the same text further on. -/
def Equivariant (n : Nat) (f : Context Value → Matched → Bool × Context Value) : Prop :=
  ∀ ctx m, f (onward n ctx) (m.shift n) = ((f ctx m).1, onward n (f ctx m).2)

section
variable {n : Nat}

theorem basic_equivariant : Equivariant n Types.basic := by
  intro ctx m
  unfold Types.basic
  rw [show (m.shift n).text = m.text from rfl]
  cases BasicType.ofKeyword? m.text <;> rfl

theorem named_equivariant : Equivariant n Types.named := by
  intro ctx m
  unfold Types.named
  rw [lifts_identifier.takeAs]
  rcases takeAs Value.identifier? "QualifiedId" ctx with ⟨_ | name, ctx₁⟩ <;> rfl

theorem array_equivariant : Equivariant n Types.array := by
  intro ctx m
  unfold Types.array
  rw [lifts_type.takeValueAs]
  rcases takeValueAs Value.type? ctx with ⟨_ | element, ctx₁⟩ <;> rfl

theorem setInt_onward (ctx : Context Value) (text : String) (k : Nat) :
    Literals.setInt (onward n ctx) text k =
      ((Literals.setInt ctx text k).1, onward n (Literals.setInt ctx text k).2) := by
  unfold Literals.setInt
  split <;> rfl

theorem char_equivariant : Equivariant n Literals.char := by
  intro ctx m
  unfold Literals.char
  rw [show (m.shift n).text = m.text from rfl]
  split <;> rfl

theorem string_equivariant : Equivariant n Literals.string := by
  intro ctx m
  unfold Literals.string
  rw [show (m.shift n).text = m.text from rfl]
  split <;> rfl

theorem setBinaryOp_equivariant : Equivariant n Expressions.setBinaryOp := by
  intro ctx m
  unfold Expressions.setBinaryOp
  rw [show (m.shift n).text = m.text from rfl]
  cases BinaryOp.ofSymbol? m.text with
  | none => rfl
  | some op => exact Prod.ext rfl (ctx.move_set "op" (.binaryOp op)).symm

theorem setUnaryOp_equivariant : Equivariant n Expressions.setUnaryOp := by
  intro ctx m
  unfold Expressions.setUnaryOp
  rw [show (m.shift n).text = m.text from rfl]
  cases UnaryOp.ofSymbol? m.text with
  | none => rfl
  | some op => exact Prod.ext rfl (ctx.move_set "op" (.unaryOp op)).symm

theorem foldBinary_onward (ctx : Context Value) (v : Value) :
    Expressions.foldBinary (onward n ctx) (v.shift n) = onward n (Expressions.foldBinary ctx v) := by
  unfold Expressions.foldBinary
  rw [lifts_expr.takeValueAs, onward, Context.move_get?, lifts_binaryOp.bind, lifts_expr v, Option.map_id, id_eq]
  rcases (ctx.get? "op").bind Value.binaryOp? with _ | op
  · rfl
  rcases takeValueAs Value.expr? ctx with ⟨_ | left, ctx₁⟩
  · rfl
  rcases v.expr? with _ | right
  · rfl
  exact congrArg (fun e => (onward n ctx₁).setValue (.expr e)) (Expr.shift_ofOperands n op left right).symm

theorem applyUnary_onward (ctx : Context Value) (v : Value) :
    Expressions.applyUnary (onward n ctx) (v.shift n) = onward n (Expressions.applyUnary ctx v) := by
  unfold Expressions.applyUnary
  rw [onward, Context.move_get?, lifts_unaryOp.bind, lifts_expr v, Option.map_id, id_eq]
  rcases (ctx.get? "op").bind Value.unaryOp? with _ | op
  · rfl
  rcases v.expr? with _ | e
  · rfl
  simp only [Option.map_some, Expr.span_mapSpans]
  rfl

theorem wrapValue_equivariant {wrap wrap' : Expr → Span → Expr}
    (hw : ∀ e s, wrap' (e.shift n) (s.shift n) = (wrap e s).shift n) (ctx : Context Value) (m : Matched) :
    Expressions.wrapValue wrap' (onward n ctx) (m.shift n) =
      ((Expressions.wrapValue wrap ctx m).1, onward n (Expressions.wrapValue wrap ctx m).2) := by
  unfold Expressions.wrapValue
  rw [lifts_expr.takeValueAs]
  rcases takeValueAs Value.expr? ctx with ⟨_ | e, ctx₁⟩
  · rfl
  · exact Prod.ext rfl (congrArg (fun e => (onward n ctx₁).setValue (.expr e)) (hw e ⟨m.span.file, ctx₁.start, m.span.stop⟩))

theorem member_equivariant : Equivariant n Expressions.member := by
  intro ctx m
  unfold Expressions.member
  rw [lifts_identifier.takeAs]
  rcases takeAs Value.identifier? "Identifier" ctx with ⟨_ | id, ctx₁⟩
  · rfl
  · exact wrapValue_equivariant (fun _ _ => rfl) ctx₁ m

theorem invoke_equivariant : Equivariant n Expressions.invoke := by
  intro ctx m
  unfold Expressions.invoke
  rw [lifts_expr.takeItems]
  rcases takeItems Value.expr? "args" ctx with ⟨_ | arguments, ctx₁⟩
  · rfl
  · refine wrapValue_equivariant (fun e s => ?_) ctx₁ m
    simp only [Expr.shift, Expr.mapSpans, Expr.mapSpansAll_eq]

theorem indexed_equivariant : Equivariant n Expressions.indexed := by
  intro ctx m
  unfold Expressions.indexed
  rw [lifts_expr.takeAs]
  rcases takeAs Value.expr? "Index" ctx with ⟨_ | i, ctx₁⟩
  · rfl
  · exact wrapValue_equivariant (fun _ _ => rfl) ctx₁ m

theorem literal_equivariant : Equivariant n Expressions.literal := by
  intro ctx m
  unfold Expressions.literal
  rw [modeOf_onward, lifts_literal.takeAs]
  split
  · rfl
  · rcases takeAs Value.literal? "Literal" ctx with ⟨_ | l, ctx₁⟩ <;> rfl

theorem name_equivariant : Equivariant n Expressions.name := by
  intro ctx m
  unfold Expressions.name
  rw [lifts_identifier.takeAs]
  rcases takeAs Value.identifier? "Identifier" ctx with ⟨_ | id, ctx₁⟩ <;> rfl

theorem terminate_equivariant : Equivariant n Statements.terminate := by
  intro ctx m
  unfold Statements.terminate
  rw [show (onward n ctx).value = ctx.value.map (Value.shift n) from rfl]
  rcases ctx.value with _ | v
  · rfl
  cases v with
  | statement s =>
    refine Prod.ext rfl (congrArg (fun s => (onward n ctx).setValue (.statement s)) ?_)
    simp only [Statement.extendTo, Statement.mapSpans_withSpan, Statement.span_mapSpans, Span.extendTo,
      Span.shift, Matched.shift, Nat.add_max_add_right]
  | _ => rfl

theorem closeBlock_equivariant : Equivariant n Statements.closeBlock := by
  intro ctx m
  unfold Statements.closeBlock
  rw [lifts_statement.takeItems]
  rcases takeItems Value.statement? "items" ctx with ⟨_ | items, ctx₁⟩
  · rfl
  · refine Prod.ext rfl (congrArg (fun s => (onward n ctx₁).setValue (.statement s)) ?_)
    simp only [Statement.mapSpans, Statement.mapSpansAll_eq]
    rfl

theorem ifElse_equivariant : Equivariant n Statements.ifElse := by
  intro ctx m
  unfold Statements.ifElse
  simp only [lifts_expr.takeAs, lifts_statement.takeAs]
  rcases takeAs Value.expr? "Cond" ctx with ⟨_ | condition, ctx₁⟩
  · rfl
  rcases takeAs Value.statement? "Then" ctx₁ with ⟨_ | thenBranch, ctx₂⟩
  · rfl
  rcases takeAs Value.statement? "Else" ctx₂ with ⟨_ | elseBranch, ctx₃⟩ <;> rfl

theorem whileLoop_equivariant : Equivariant n Statements.whileLoop := by
  intro ctx m
  unfold Statements.whileLoop
  simp only [lifts_expr.takeAs, lifts_statement.takeAs]
  rcases takeAs Value.expr? "Cond" ctx with ⟨_ | condition, ctx₁⟩
  · rfl
  rcases takeAs Value.statement? "Body" ctx₁ with ⟨_ | body, ctx₂⟩ <;> rfl

theorem doWhile_equivariant : Equivariant n Statements.doWhile := by
  intro ctx m
  unfold Statements.doWhile
  simp only [lifts_expr.takeAs, lifts_statement.takeAs]
  rcases takeAs Value.statement? "Body" ctx with ⟨_ | body, ctx₁⟩
  · rfl
  rcases takeAs Value.expr? "Cond" ctx₁ with ⟨_ | condition, ctx₂⟩ <;> rfl

theorem forLoop_equivariant : Equivariant n Statements.forLoop := by
  intro ctx m
  unfold Statements.forLoop
  simp only [lifts_expr.takeAs, lifts_statement.takeAs]
  rcases takeAs Value.statement? "Body" ctx with ⟨_ | body, ctx₁⟩
  · rfl
  rcases takeAs Value.statement? "Init" ctx₁ with ⟨init, ctx₂⟩
  rcases takeAs Value.expr? "Cond" ctx₂ with ⟨condition, ctx₃⟩
  rcases takeAs Value.statement? "Step" ctx₃ with ⟨step, ctx₄⟩
  refine Prod.ext rfl (congrArg (fun s => (onward n ctx₄).setValue (.statement s)) ?_)
  simp only [Statement.shift, Statement.mapSpans, Statement.mapSpans?_eq]
  rfl

theorem ret_equivariant : Equivariant n Statements.ret := by
  intro ctx m
  unfold Statements.ret
  rw [lifts_expr.takeAs]
  rcases takeAs Value.expr? "Value" ctx with ⟨value, ctx₁⟩
  rfl

theorem construction_equivariant : Equivariant n Statements.construction := by
  intro ctx m
  unfold Statements.construction
  simp only [lifts_type.takeAs, lifts_identifier.takeAs, lifts_expr.takeAs]
  rcases takeAs Value.type? "TypeExpr" ctx with ⟨_ | type, ctx₁⟩
  · rfl
  rcases takeAs Value.identifier? "Identifier" ctx₁ with ⟨_ | name, ctx₂⟩
  · rfl
  rcases takeAs Value.expr? "Init" ctx₂ with ⟨init, ctx₃⟩
  rfl

theorem assignment_equivariant : Equivariant n Statements.assignment := by
  intro ctx m
  unfold Statements.assignment
  simp only [lifts_expr.takeAs]
  rcases takeAs Value.expr? "Target" ctx with ⟨_ | target, ctx₁⟩
  · rfl
  rcases takeAs Value.expr? "Value" ctx₁ with ⟨_ | value, ctx₂⟩ <;> rfl

theorem expressionBody_equivariant : Equivariant n Statements.expressionBody := by
  intro ctx m
  unfold Statements.expressionBody
  rw [lifts_expr.takeAs]
  rcases takeAs Value.expr? "Expr" ctx with ⟨_ | e, ctx₁⟩ <;> rfl

theorem unit_equivariant : Equivariant n Units.unit := by
  intro ctx m
  unfold Units.unit
  rw [lifts_function.takeItems]
  rcases takeItems Value.function? "functions" ctx with ⟨_ | functions, ctx₁⟩ <;> rfl

theorem function_equivariant : Equivariant n Units.function := by
  intro ctx m
  unfold Units.function
  simp only [lifts_type.takeAs, lifts_identifier.takeAs, lifts_statement.takeAs, lifts_parameter.takeItems]
  rcases takeAs Value.type? "ReturnType" ctx with ⟨_ | returnType, ctx₁⟩
  · rfl
  rcases takeAs Value.identifier? "Identifier" ctx₁ with ⟨_ | name, ctx₂⟩
  · rfl
  rcases takeAs Value.statement? "Body" ctx₂ with ⟨_ | body, ctx₃⟩
  · rfl
  rcases takeItems Value.parameter? "parameters" ctx₃ with ⟨_ | parameters, ctx₄⟩ <;> rfl

theorem parameter_equivariant : Equivariant n Units.parameter := by
  intro ctx m
  unfold Units.parameter
  simp only [lifts_type.takeAs, lifts_identifier.takeAs]
  rcases takeAs Value.type? "TypeExpr" ctx with ⟨_ | type, ctx₁⟩
  · rfl
  rcases takeAs Value.identifier? "Identifier" ctx₁ with ⟨_ | name, ctx₂⟩ <;> rfl

end

/-! ## Rules -/

section
variable {n : Nat}

theorem lexical_moving : ∀ rule ∈ (Lexical.grammar : GrammarDecl Value).rules, Moving n rule := by
  have hbare : ∀ rule ∈ (Lexical.grammar : GrammarDecl Value).rules,
      rule.actions = [] ∧ rule.preCalls = [] ∧ rule.postCalls = [] := by
    simp [Lexical.grammar, Rule.new]
  intro rule hrule
  obtain ⟨ha, hp, ht⟩ := hbare rule hrule
  exact .bare ha hp ht

theorem keywords_moving : ∀ rule ∈ Keywords.grammar.rules, Moving n rule := by
  simp only [Keywords.grammar, List.forall_mem_cons, List.not_mem_nil, false_implies, implies_true, and_true]
  exact .bare rfl rfl rfl

theorem identifiers_moving : ∀ rule ∈ Identifiers.grammar.rules, Moving n rule := by
  simp only [Identifiers.grammar, List.forall_mem_cons, List.not_mem_nil, false_implies, implies_true, and_true]
  exact ⟨.action' (.bare rfl rfl rfl) fun _ _ => rfl, .action' (.bare rfl rfl rfl) fun _ _ => rfl⟩

theorem types_moving : ∀ rule ∈ Types.grammar.rules, Moving n rule := by
  simp only [Types.grammar, List.forall_mem_cons, List.not_mem_nil, false_implies, implies_true, and_true]
  exact .predicate (.predicate (.predicate (.bare rfl rfl rfl) basic_equivariant) named_equivariant) array_equivariant

/-- A rule whose value is that of any one of several calls. -/
theorem yields_moving {rule : Rule Value} (h : Moving n rule) (names : List String) :
    Moving n (names.foldl (·.yields ·) rule) := by
  induction names generalizing rule with
  | nil => exact h
  | cons name names ih => exact ih h.yields

theorem literals_moving : ∀ rule ∈ Literals.grammar.rules, Moving n rule := by
  simp only [Literals.grammar, List.forall_mem_cons, List.not_mem_nil, false_implies, implies_true, and_true]
  refine ⟨yields_moving (.bare rfl rfl rfl) _, ?_, ?_, ?_, ?_, ?_, ?_⟩
  · exact .action' (.action' (.bare rfl rfl rfl) fun _ _ => rfl) fun _ _ => rfl
  · exact .action' (.bare rfl rfl rfl) fun _ _ => rfl
  · exact .checked (.checked (.bare rfl rfl rfl) fun _ _ => setInt_onward _ _ _) fun _ _ => setInt_onward _ _ _
  · exact .predicate (.bare rfl rfl rfl) char_equivariant
  · exact .predicate (.bare rfl rfl rfl) string_equivariant
  · exact .action' (.bare rfl rfl rfl) fun _ _ => rfl

theorem binaryLevel_moving (name operand : String) (operators : Pattern) :
    Moving n (Expressions.binaryLevel name operand operators) :=
  .postCall (.predicate (.yields (.forward (.forward (.bare rfl rfl rfl) _) _)) setBinaryOp_equivariant) foldBinary_onward

theorem prefixRule_moving : Moving n Expressions.prefixRule :=
  .postCall (.predicate (.yields (.forward (.forward (.bare rfl rfl rfl) _) _)) setUnaryOp_equivariant) applyUnary_onward

theorem postfixRule_moving : Moving n Expressions.postfixRule := by
  refine .predicate (.predicate (.predicate (.action' (.postCall (.preCall (.preCall (.yields (.forward
    (.bare rfl rfl rfl) _)) ?_) ?_) ?_) ?_) member_equivariant) invoke_equivariant) indexed_equivariant
  · exact fun _ => rfl
  · exact fun _ => rfl
  · exact pushItem_onward n "args"
  · exact fun ctx _ => (ctx.move_set "args" (.list [])).symm

theorem primary_moving : Moving n Expressions.primary :=
  .predicate (.action' (.predicate (.yields (.forward (.bare rfl rfl rfl) _)) literal_equivariant) fun _ _ => rfl) name_equivariant

theorem expressions_moving : ∀ rule ∈ Expressions.grammar.rules, Moving n rule := by
  simp only [Expressions.grammar, Expressions.binaryLevels, List.cons_append, List.nil_append, List.forall_mem_cons,
    List.not_mem_nil, false_implies, implies_true, and_true]
  exact ⟨.yields (.forward (.bare rfl rfl rfl) _), binaryLevel_moving _ _ _, binaryLevel_moving _ _ _,
    binaryLevel_moving _ _ _, binaryLevel_moving _ _ _, binaryLevel_moving _ _ _, binaryLevel_moving _ _ _,
    binaryLevel_moving _ _ _, prefixRule_moving, postfixRule_moving, primary_moving⟩

theorem oneOf_moving (name : String) (rules : List String) : Moving n (Statements.oneOf name rules) :=
  yields_moving (.bare rfl rfl rfl) _

theorem terminated_moving (name body : String) : Moving n (Statements.terminated name body) :=
  .predicate (.yields (.bare rfl rfl rfl)) terminate_equivariant

theorem compoundRule_moving : Moving n Statements.compoundRule :=
  .predicate (.postCall (.action' (.bare rfl rfl rfl) fun ctx _ => (ctx.move_set "items" (.list [])).symm)
    (pushItem_onward n "items")) closeBlock_equivariant

/-- A rule that reads an expression and has one action. -/
theorem reading_moving {name label action : String} {definition : Pattern}
    {f : Context Value → Matched → Bool × Context Value} (hf : Equivariant n f) :
    Moving n (((Statements.statementRule name definition).preCall label Expressions.rvalue).predicate action f) :=
  .predicate (.preCall (.bare rfl rfl rfl) fun _ => rfl) hf

theorem statements_moving : ∀ rule ∈ Statements.grammar.rules, Moving n rule := by
  simp only [Statements.grammar, List.forall_mem_cons, List.not_mem_nil, false_implies, implies_true, and_true]
  refine ⟨oneOf_moving _ _, compoundRule_moving, reading_moving ifElse_equivariant, reading_moving whileLoop_equivariant,
    reading_moving doWhile_equivariant, reading_moving forLoop_equivariant, reading_moving ret_equivariant, ?_, ?_,
    terminated_moving _ _, reading_moving construction_equivariant, terminated_moving _ _, ?_, terminated_moving _ _,
    reading_moving expressionBody_equivariant, ?_, oneOf_moving _ _, oneOf_moving _ _⟩
  · exact .predicate (.bare rfl rfl rfl) fun _ _ => rfl
  · exact .predicate (.bare rfl rfl rfl) fun _ _ => rfl
  · exact .predicate (.preCall (.preCall (.bare rfl rfl rfl) fun _ => rfl) fun _ => rfl) assignment_equivariant
  · exact .action' (.bare rfl rfl rfl) fun _ _ => rfl

theorem units_moving : ∀ rule ∈ Units.grammar.rules, Moving n rule := by
  simp only [Units.grammar, List.forall_mem_cons, List.not_mem_nil, false_implies, implies_true, and_true]
  exact ⟨.predicate (.postCall (.bare rfl rfl rfl) (pushItem_onward n "functions")) unit_equivariant,
    .predicate (.postCall (.bare rfl rfl rfl) (pushItem_onward n "parameters")) function_equivariant,
    .predicate (.bare rfl rfl rfl) parameter_equivariant⟩

theorem registry_moving : ∀ g ∈ registry.grammars, ∀ rule ∈ g.rules, Moving n rule := by
  rw [registry_grammars]
  simp only [List.forall_mem_cons, List.not_mem_nil, false_implies, implies_true, and_true]
  exact ⟨lexical_moving, keywords_moving, identifiers_moving, types_moving, literals_moving, expressions_moving,
    statements_moving, units_moving⟩

/-- Every rule of the domain does the same further on. -/
theorem domain_moving {d : Domain Value} (h : domain = .ok d) (id : RuleId) (rule : Rule Value)
    (hid : d.rules[id]? = some rule) : Moving n rule := by
  obtain ⟨g, hg, declared, hd, definition, rfl⟩ := Registry.declared (link_of_domain h) hid
  exact (registry_moving g hg declared hd).redefine g.name definition

end

end Cminor

end PegFront
