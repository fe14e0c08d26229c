import PegFront.Proofs.Cminor.UnitRendering

/-!
# Statements inside statements

What a statement is made of was read by the same rules, so the grammar speaks of every statement of a tree and not only of
the outermost one (`parse_stated`). Two rules of the language follow: the target of an assignment holds no literal that it
does not pass on or index by, and an `else` belongs to the nearest `if`.
-/

namespace PegFront.Cminor

/-! ## The statements of a tree -/

namespace Statement

/-- The statements a statement is put together from. -/
def parts : Statement → List Statement
  | .compound items _ => items
  | .ifElse _ b b' _ => b :: b'.toList
  | .whileLoop _ b _ | .doWhile b _ _ => [b]
  | .forLoop init _ step b _ => init.toList ++ step.toList ++ [b]
  | _ => []

mutual

/-- The statements in a statement, itself included; those in the head of a loop are among them. -/
def nodes : Statement → List Statement
  | .compound items s => .compound items s :: nodesAll items
  | .expression e s => [.expression e s]
  | .assignment target value s => [.assignment target value s]
  | .construction t id init s => [.construction t id init s]
  | .ifElse e b b' s => .ifElse e b b' s :: (nodes b ++ nodes? b')
  | .whileLoop e b s => .whileLoop e b s :: nodes b
  | .doWhile b e s => .doWhile b e s :: nodes b
  | .forLoop init e step b s => .forLoop init e step b s :: (nodes? init ++ nodes? step ++ nodes b)
  | .ret e s => [.ret e s]
  | .breakLoop s => [.breakLoop s]
  | .continueLoop s => [.continueLoop s]
  | .empty s => [.empty s]

def nodesAll : List Statement → List Statement
  | [] => []
  | s :: ss => nodes s ++ nodesAll ss

def nodes? : Option Statement → List Statement
  | none => []
  | some s => nodes s

end

theorem nodesAll_eq (ss : List Statement) : nodesAll ss = ss.flatMap nodes := by
  induction ss with
  | nil => rfl
  | cons s ss ih => rw [nodesAll, ih, List.flatMap_cons]

theorem nodes?_eq (s : Option Statement) : nodes? s = s.toList.flatMap nodes := by
  cases s <;> simp [nodes?]

theorem nodes_eq (s : Statement) : s.nodes = s :: s.parts.flatMap nodes := by
  cases s <;> simp [nodes, parts, nodesAll_eq, nodes?_eq]

/-- Induction in which only the parts of a statement count. -/
theorem induct_parts {P : Statement → Prop} (h : ∀ s, (∀ p ∈ s.parts, P p) → P s) (s : Statement) : P s := by
  induction s using induct with
  | compound items s ih => exact h _ ih
  | ifElse e b b' s ih ih' => exact h _ (List.forall_mem_cons.2 ⟨ih, by simpa using ih'⟩)
  | whileLoop e b s ih | doWhile b e s ih => exact h _ (List.forall_mem_singleton.2 ih)
  | forLoop init e step b s ih ih' ihb =>
    refine h _ (List.forall_mem_append.2 ⟨List.forall_mem_append.2 ⟨?_, ?_⟩, List.forall_mem_singleton.2 ihb⟩)
    · simpa using ih
    · simpa using ih'
  | _ => exact h _ fun _ hp => absurd hp List.not_mem_nil

/-- What statements pass on to their parts holds of all that is in a tree. -/
theorem forall_nodes {P : Statement → Prop} (hparts : ∀ s, P s → ∀ p ∈ s.parts, P p) (s : Statement) :
    P s → ∀ n ∈ s.nodes, P n := by
  induction s using induct_parts with
  | h s ih =>
    intro hs n hn
    rw [nodes_eq, List.mem_cons, List.mem_flatMap] at hn
    obtain rfl | ⟨p, hp, hn⟩ := hn
    · exact hs
    · exact ih p hp (hparts s hs p hp) n hn

theorem parts_withSpan (s : Statement) (span : Span) : (s.withSpan span).parts = s.parts := by cases s <;> rfl

/-- A statement and the ones its text ends with: the last branch of an `if` and the body of a `while` or `for`. -/
def trailing : Statement → List Statement
  | .ifElse e b none s => .ifElse e b none s :: trailing b
  | .ifElse e b (some b') s => .ifElse e b (some b') s :: trailing b'
  | .whileLoop e b s => .whileLoop e b s :: trailing b
  | .forLoop init e step b s => .forLoop init e step b s :: trailing b
  | s => [s]

def lacksElse : Statement → Bool
  | .ifElse _ _ none _ => true
  | _ => false

theorem endsOpen_eq (s : Statement) : s.endsOpen = s.trailing.any lacksElse := by
  fun_induction trailing s <;> simp_all [endsOpen, lacksElse]

end Statement

/-- The statements in what a parse answers with. -/
def Value.statements : Value → List Statement
  | .statement s => s.nodes
  | .compileUnit u => u.functions.flatMap fun fn => fn.body.nodes
  | _ => []

/-! ## What has been read -/

section
variable {f o : Nat} {x : List Char} {s : Statement}

/-- A statement that some text is read as, with a semicolon or, as in the head of a loop, without. -/
def Stated (f : Nat) (s : Statement) : Prop := ∃ o x, Says f o x s ∨ BodyText f o x s

theorem Says.stated (h : Says f o x s) : Stated f s := ⟨o, x, .inl h⟩

theorem BodyText.stated (h : BodyText f o x s) : Stated f s := ⟨o, x, .inr h⟩

theorem Optionally.forall_mem {α : Type} {R : Nat → List Char → α → Prop} {P : α → Prop} {v : Option α}
    (h : Optionally R o x v) (hP : ∀ {o x a}, R o x a → P a) : ∀ a ∈ v.toList, P a := by
  cases h with
  | none => exact fun _ h => absurd h List.not_mem_nil
  | some _ _ h => exact List.forall_mem_singleton.2 (hP h)

/-- What stands before a semicolon has no statements in it. -/
theorem BodyText.parts_eq_nil (h : BodyText f o x s) : s.parts = [] := by cases h <;> rfl

theorem Says.stated_parts (h : Says f o x s) : ∀ p ∈ s.parts, Stated f p := by
  cases h with
  | compound _ _ has => exact List.forall_mem_map.2 fun a ha => (has a ha).stated
  | ifThen _ _ _ _ _ hy | whileLoop _ _ _ _ _ hy | doWhile _ _ _ hy => exact List.forall_mem_singleton.2 hy.stated
  | ifElse _ _ _ _ _ hy _ _ _ _ _ hz =>
    exact List.forall_mem_cons.2 ⟨hy.stated, List.forall_mem_singleton.2 hz.stated⟩
  | forLoop _ _ hi _ _ _ _ _ hp _ _ _ hy =>
    exact List.forall_mem_append.2 ⟨List.forall_mem_append.2
      ⟨hi.forall_mem BodyText.stated, hp.forall_mem fun h => h.1.stated⟩, List.forall_mem_singleton.2 hy.stated⟩
  | body h =>
    rw [Statement.parts_withSpan, h.parts_eq_nil]
    exact fun _ h => absurd h List.not_mem_nil
  | _ => exact fun _ h => absurd h List.not_mem_nil

theorem Stated.parts (h : Stated f s) : ∀ p ∈ s.parts, Stated f p := by
  obtain ⟨o, x, h | h⟩ := h
  · exact h.stated_parts
  · rw [h.parts_eq_nil]
    exact fun _ h => absurd h List.not_mem_nil

theorem Says.stated_nodes (h : Says f o x s) : ∀ n ∈ s.nodes, Stated f n :=
  s.forall_nodes (fun _ => Stated.parts) h.stated

theorem FunctionText.stated_nodes {fn : FunctionDef} (h : FunctionText f o x fn) : ∀ n ∈ fn.body.nodes, Stated f n := by
  cases h with
  | mk _ _ _ _ _ _ _ hb => exact hb.stated_nodes

theorem UnitText.forall_functions {P : FunctionDef → Prop} {file : String} {u : CompileUnit} (h : UnitText f file o x u)
    (hP : ∀ {o x fn}, FunctionText f o x fn → P fn) : ∀ fn ∈ u.functions, P fn := by
  cases h with
  | empty => exact fun _ h => absurd h List.not_mem_nil
  | functions h _ _ has => exact List.forall_mem_cons.2 ⟨hP h, List.forall_mem_map.2 fun a ha => hP (has a ha)⟩

end

/-- What a text is read as, by the kind of its tree. -/
inductive ValueText (f : Nat) (file : String) (o : Nat) (x : List Char) : Value → Prop
  | expression {e} (h : Reads f false 0 o x e) : ValueText f file o x (.expr e)
  | statement {s} (h : Says f o x s) : ValueText f file o x (.statement s)
  | unit {u} (h : UnitText f file o x u) : ValueText f file o x (.compileUnit u)

theorem ValueText.stated {f o : Nat} {file : String} {x : List Char} {v : Value} (h : ValueText f file o x v) :
    ∀ s ∈ v.statements, Stated f s := by
  cases h with
  | expression => exact fun _ h => absurd h List.not_mem_nil
  | statement h => exact h.stated_nodes
  | unit h => exact List.forall_mem_flatMap.2 (h.forall_functions FunctionText.stated_nodes)

section
variable {kind : SourceKind} {source : String} {options : Options} {session : Session Value} {v : Value}

/-- A source that parses is a text of the grammar between two others. -/
theorem parse_text (h : (parse kind source options session).1 = .ok v) : ∃ lead x trail,
    source.toList = lead ++ x ++ trail ∧ ValueText options.fileIndex options.file (Text.byteLength lead) x v := by
  have hkind : v.kind = kind.valueKind := by
    have hanswers := parse_answers kind source options session
    rw [h] at hanswers
    cases hanswers with
    | value h => exact h
  have haccepts := (parse_eq_ok_iff kind source options session v).1 h
  cases kind with
  | unit =>
    cases v with
    | compileUnit u =>
      obtain ⟨lead, x, trail, hsource, -, hx, -⟩ := parseCompileUnit_eq_ok_iff.1
        (parseFile_eq_ok_iff.2 ⟨.compileUnit u, rfl, haccepts⟩)
      exact ⟨lead, x, trail, hsource, .unit hx⟩
    | _ => cases hkind
  | statement =>
    cases v with
    | statement s =>
      obtain ⟨lead, x, trail, hsource, -, hx, -⟩ := parseStatement_eq_ok_iff.1
        (parseFile_eq_ok_iff.2 ⟨.statement s, rfl, haccepts⟩)
      exact ⟨lead, x, trail, hsource, .statement hx⟩
    | _ => cases hkind
  | expression =>
    cases v with
    | expr e =>
      obtain ⟨lead, x, trail, hsource, -, hx, -⟩ := parseExpression_eq_ok_iff.1
        (parseFile_eq_ok_iff.2 ⟨.expr e, rfl, haccepts⟩)
      exact ⟨lead, x, trail, hsource, .expression hx⟩
    | _ => cases hkind

theorem parse_stated (h : (parse kind source options session).1 = .ok v) :
    ∀ s ∈ v.statements, Stated options.fileIndex s := by
  obtain ⟨lead, x, trail, -, hx⟩ := parse_text h
  exact hx.stated

/-- A source that is a statement from end to end parses as it. -/
theorem parse_says {s : Statement} (h : Says options.fileIndex 0 source.toList s) :
    (parse .statement source options session).1 = .ok (.statement s) := by
  have hfile : parseStatement source options.fileIndex options.file = .ok s :=
    parseStatement_eq_ok_iff.2 ⟨[], source.toList, [], by simp, .nil, h, rfl⟩
  obtain ⟨v, hv, haccepts⟩ := parseFile_eq_ok_iff.1 hfile
  cases v with
  | statement s' =>
    cases hv
    exact (parse_eq_ok_iff .statement source options session _).2 haccepts
  | _ => cases hv

/-! ## Targets of assignments -/

/-- The nodes of a tree that stand neither among the arguments of a call nor in an index. -/
def Expr.exposed : Expr → List Expr
  | .literal l s => [.literal l s]
  | .name id s => [.name id s]
  | .this s => [.this s]
  | .unary op e s => .unary op e s :: exposed e
  | .binary op left right s => .binary op left right s :: (exposed left ++ exposed right)
  | .member target id s => .member target id s :: exposed target
  | .invoke target arguments s => .invoke target arguments s :: exposed target
  | .index target i s => .index target i s :: exposed target

/-- What is read as a target passes this on to its operands and to what its suffixes stand behind. -/
theorem Reads.exposed_target {f k o : Nat} {x : List Char} {e : Expr} (h : Reads f true k o x e) :
    ∀ n ∈ e.exposed, n.isLiteral = false := by
  generalize hlv : true = lv at h
  induction h with
  | literal => cases hlv
  | this | name => exact List.forall_mem_singleton.2 rfl
  | paren _ _ _ _ ih | lift _ _ ih => exact ih hlv
  | member _ _ _ _ _ ih | call _ _ _ ih | invoke _ _ _ _ _ _ _ _ ih | index _ _ _ _ _ _ ih | unary _ _ _ _ ih =>
    exact List.forall_mem_cons.2 ⟨rfl, ih hlv⟩
  | binary _ _ _ _ _ _ _ _ ih ih' =>
    exact List.forall_mem_cons.2 ⟨rfl, List.forall_mem_append.2 ⟨ih hlv, ih' hlv⟩⟩

theorem Stated.exposed_target {f : Nat} {target value : Expr} {span : Span} (h : Stated f (.assignment target value span)) :
    ∀ n ∈ target.exposed, n.isLiteral = false := by
  have hbody : ∀ {o x s}, BodyText f o x s → ∀ span', s.withSpan span' = .assignment target value span →
      ∀ n ∈ target.exposed, n.isLiteral = false := by
    intro o x s h span' heq
    cases h with
    | assignment hx =>
      cases heq
      exact hx.exposed_target
    | construction | expression => cases heq
  obtain ⟨o, x, h | h⟩ := h
  · generalize heq : Statement.assignment target value span = s at h
    cases h with
    | body h => exact hbody h _ heq.symm
    | _ => cases heq
  · exact hbody h span rfl

/-- The target of an assignment holds no literal outside arguments and indices, wherever the assignment stands. -/
theorem parse_target_exposes_no_literal (h : (parse kind source options session).1 = .ok v) {target value : Expr}
    {span : Span} (hs : .assignment target value span ∈ v.statements) : ∀ n ∈ target.exposed, n.isLiteral = false :=
  (parse_stated h _ hs).exposed_target

/-- The index of a target in the head of a loop is a literal. -/
theorem parse_target_index :
    let target : Expr := .index (.name ⟨"a", ⟨0, 7, 8⟩⟩ ⟨0, 7, 8⟩) (.literal (.int 1) ⟨0, 10, 11⟩) ⟨0, 6, 12⟩
    let step : Statement := .assignment target (.literal (.int 2) ⟨0, 13, 14⟩) ⟨0, 6, 14⟩
    let loop : Statement := .forLoop none none (some step) (.empty ⟨0, 15, 16⟩) ⟨0, 0, 16⟩
    (parse .statement "for(;;(a)[1]=2);" ⟨"f", 0, true⟩ {}).1 = .ok (.statement loop) ∧
      step ∈ (Value.statement loop).statements ∧ ∀ n ∈ target.exposed, n.isLiteral = false := by
  intro target step loop
  have hgap : Gap [] := .nil
  have ha : Reads 0 true 9 7 ['a'] (.name ⟨"a", ⟨0, 7, 8⟩⟩ ⟨0, 7, 8⟩) := .name (by decide)
  have hone : Reads 0 false 9 10 ['1'] (.literal (.int 1) ⟨0, 10, 11⟩) :=
    .literal (.decimal ⟨by decide, List.all_eq_true.1 rfl⟩ (by decide))
  have htwo : Reads 0 false 9 13 ['2'] (.literal (.int 2) ⟨0, 13, 14⟩) :=
    .literal (.decimal ⟨by decide, List.all_eq_true.1 rfl⟩ (by decide))
  have hparen : Reads 0 true 9 6 (['('] ++ [] ++ ['a'] ++ [] ++ [')']) (.name ⟨"a", ⟨0, 7, 8⟩⟩ ⟨0, 7, 8⟩) :=
    .paren .nil rfl (ha.loosen (by decide)) .nil
  have htarget : Reads 0 true 8 6 "(a)[1]".toList target :=
    .index (hparen.loosen (by decide)) hgap hgap rfl (hone.loosen (by decide)) hgap
  have hstep : BodyText 0 6 "(a)[1]=2".toList step :=
    .assignment htarget hgap rfl (.mk hgap rfl (htwo.loosen (by decide)))
  have hloop : Says 0 0 "for(;;(a)[1]=2);".toList loop :=
    .forLoop hgap rfl .none hgap rfl .none hgap rfl (.some hgap rfl ⟨hstep, rfl⟩) hgap hgap rfl .empty
  have hparse : (parse .statement "for(;;(a)[1]=2);" ⟨"f", 0, true⟩ {}).1 = .ok (.statement loop) := parse_says hloop
  have hmem : step ∈ (Value.statement loop).statements := List.mem_cons_of_mem _ List.mem_cons_self
  exact ⟨hparse, hmem, parse_target_exposes_no_literal hparse hmem⟩

/-! ## Branches of conditionals -/

theorem Stated.else_nearest {f : Nat} {e : Expr} {b b' : Statement} {span : Span}
    (h : Stated f (.ifElse e b (some b') span)) : ∀ t ∈ b.trailing, t.lacksElse = false := by
  have hclosed : b.endsOpen = false := by
    obtain ⟨o, x, h | h⟩ := h
    · generalize heq : Statement.ifElse e b (some b') span = s at h
      cases h with
      | ifElse _ _ _ _ _ _ hs =>
        cases heq
        exact hs
      | body h => cases h <;> cases heq
      | _ => cases heq
    · cases h
  rw [Statement.endsOpen_eq, List.any_eq_false] at hclosed
  simpa using hclosed

/-- An `else` belongs to the nearest `if` before it: the text of the branch before it does not end with an `if` that has
none. -/
theorem parse_else_nearest (h : (parse kind source options session).1 = .ok v) {e : Expr} {b b' : Statement} {span : Span}
    (hs : .ifElse e b (some b') span ∈ v.statements) : ∀ t ∈ b.trailing, t.lacksElse = false :=
  (parse_stated h _ hs).else_nearest

/-- Two branches for two conditionals, the inner one in a loop. -/
theorem parse_else_in_loop :
    let inner : Statement := .ifElse (.name ⟨"c", ⟨0, 16, 17⟩⟩ ⟨0, 16, 17⟩) (.empty ⟨0, 18, 19⟩) (some (.empty ⟨0, 23, 24⟩))
      ⟨0, 13, 24⟩
    let loop : Statement := .whileLoop (.name ⟨"b", ⟨0, 11, 12⟩⟩ ⟨0, 11, 12⟩) inner ⟨0, 5, 24⟩
    let outer : Statement := .ifElse (.name ⟨"a", ⟨0, 3, 4⟩⟩ ⟨0, 3, 4⟩) loop (some (.empty ⟨0, 28, 29⟩)) ⟨0, 0, 29⟩
    (parse .statement "if(a)while(b)if(c);else;else;" ⟨"f", 0, true⟩ {}).1 = .ok (.statement outer) ∧
      outer ∈ (Value.statement outer).statements ∧ ∀ t ∈ loop.trailing, t.lacksElse = false := by
  intro inner loop outer
  have hgap : Gap [] := .nil
  have hname : ∀ (o : Nat) (ch : Char), isName [ch] = true → Enclosed 0 o (['('] ++ [] ++ [ch] ++ [] ++ [')'])
      (.name ⟨String.ofList [ch], spanAt 0 (o + 1) [ch]⟩ (spanAt 0 (o + 1) [ch])) :=
    fun o ch h => .mk .nil rfl ((Reads.name h).loosen (by decide)) .nil
  have hinner : Says 0 13 "if(c);else;".toList inner :=
    .ifElse hgap rfl (hname _ 'c' (by decide)) hgap rfl .empty rfl hgap hgap
      (by rintro _ ⟨⟩; decide) rfl .empty
  have hloop : Says 0 5 "while(b)if(c);else;".toList loop :=
    .whileLoop hgap rfl (hname _ 'b' (by decide)) hgap rfl hinner
  have houter : Says 0 0 "if(a)while(b)if(c);else;else;".toList outer :=
    .ifElse hgap rfl (hname _ 'a' (by decide)) hgap rfl hloop rfl hgap hgap
      (by rintro _ ⟨⟩; decide) rfl .empty
  have hparse : (parse .statement "if(a)while(b)if(c);else;else;" ⟨"f", 0, true⟩ {}).1 = .ok (.statement outer) :=
    parse_says houter
  have hmem : outer ∈ (Value.statement outer).statements := List.mem_cons_self
  exact ⟨hparse, hmem, parse_else_nearest hparse hmem⟩

end

end PegFront.Cminor
