import PegFront.Proofs.Cminor.Steps

/-!
# The rules for statements

What the rules make of each of the twelve kinds of statements, part by part. The first kind that hits is taken, so
for each kind it is also said what it misses at.
-/

namespace PegFront.Cminor

open Statements

section
variable {w : World Value} {rule callee : Rule Value} {a p : Pattern} {ctx ctx₁ : Context Value}
  {c c₁ c₂ c₃ c₄ c₅ d : Cursor} {name body : String} {v : Value} {e : Expr} {s : Statement}

/-! ## The rules -/

/-- A rule of the grammar of statements. -/
abbrev ofStatements (rule : Rule Value) : Rule Value := linked Statements.grammarName rule

theorem table_statement (rule : Rule Value) (hr : rule ∈ Statements.grammar.rules) :
    table[idOf rule.name]? = some (ofStatements rule) :=
  table_idOf Statements.grammar (by simp [registry_grammars]) rule hr

theorem table_choice : table[idOf "Statement"]? = some (ofStatements (oneOf "Statement" alternatives)) :=
  table_statement (oneOf "Statement" alternatives) (by simp [Statements.grammar])

theorem table_compound : table[idOf "Compound"]? = some (ofStatements compoundRule) :=
  table_statement compoundRule (by simp [Statements.grammar])

theorem table_if : table[idOf "If"]? = some (ofStatements ifRule) :=
  table_statement ifRule (by simp [Statements.grammar])

theorem table_while : table[idOf "While"]? = some (ofStatements whileRule) :=
  table_statement whileRule (by simp [Statements.grammar])

theorem table_doWhile : table[idOf "DoWhile"]? = some (ofStatements doWhileRule) :=
  table_statement doWhileRule (by simp [Statements.grammar])

theorem table_for : table[idOf "For"]? = some (ofStatements forRule) :=
  table_statement forRule (by simp [Statements.grammar])

theorem table_return : table[idOf "Return"]? = some (ofStatements returnRule) :=
  table_statement returnRule (by simp [Statements.grammar])

theorem table_break : table[idOf "Break"]? = some (ofStatements breakRule) :=
  table_statement breakRule (by simp [Statements.grammar])

theorem table_continue : table[idOf "Continue"]? = some (ofStatements continueRule) :=
  table_statement continueRule (by simp [Statements.grammar])

theorem table_constructionBody : table[idOf "ConstructionBody"]? = some (ofStatements constructionBodyRule) :=
  table_statement constructionBodyRule (by simp [Statements.grammar])

theorem table_assignmentBody : table[idOf "AssignmentBody"]? = some (ofStatements assignmentBodyRule) :=
  table_statement assignmentBodyRule (by simp [Statements.grammar])

theorem table_expressionBody : table[idOf "ExpressionBody"]? = some (ofStatements expressionBodyRule) :=
  table_statement expressionBodyRule (by simp [Statements.grammar])

theorem table_empty : table[idOf "Empty"]? = some (ofStatements emptyRule) :=
  table_statement emptyRule (by simp [Statements.grammar])

/-! ## Conditions and bodies -/

/-- An expression in parentheses. -/
def Condition (w : World Value) (c : Cursor) (e : Expr) (d : Cursor) : Prop :=
  ∃ c₁ c₂ c₃ c₄, c.Spans ['('] c₁ ∧ Over c₁ c₂ ∧ Part w "Expression" [.mode {}] c₂ (.expr e) c₃ ∧ Over c₃ c₄ ∧
    c₄.Spans [')'] d

theorem Steps.condition (hw : w.rules = table) (ha : Steps w rule a ctx c ctx₁ c₁) (ho : Over c₁ c₂)
    (hopen : ∀ {c₃}, c₂.Spans ['('] c₃ → Steps w rule p ctx₁ c₂ ctx₁ c₃) (hcond : Condition w c₂ e d)
    (hp : rule.preCall? "Cond" = some Expressions.rvalue) :
    Steps w rule (.seq (.seq (.seq a p) (.expect (.call (callAt "Cond" "Expression" 1)))) (.expect (.char ')'))) ctx c
      (rule.takeUp "Cond" ctx₁ (.expr e)) d := by
  obtain ⟨c₃, c₄, c₅, c₆, h₁, h₂, h₃, h₄, h₅⟩ := hcond
  refine ((((ha.next hw ho (hopen h₁)).next hw h₂ (.expect (.call hw table_expression rfl h₃ rfl ?_ rfl))).next hw h₄
    (.expect (.char h₅))))
  simp only [Rule.argumentsOf, callAt, hp]
  rfl

/-! ## Statements that begin with a keyword -/

theorem if_head (hw : w.rules = table) (hkey : c.Spans "if".toList c₁) (hend : WordEnd c₁.rest) (h₁ : Over c₁ c₂)
    (hcond : Condition w c₂ e c₃) (h₂ : Over c₃ c₄) (hthen : Part w "Statement" [] c₄ (.statement s) d) :
    Steps w (ofStatements ifRule) (.seq (.seq (.seq (.seq (.keyword "if") (.char '('))
      (.expect (.call (callAt "Cond" "Expression" 1)))) (.expect (.char ')')))
      (.expect (.call (callAt "Then" "Statement" 0)))) ⟨[], none, c.offset⟩ c
      ⟨[("Cond", .expr e), ("Then", .statement s)], none, c.offset⟩ d :=
  (Steps.condition hw (.keyword (by decide) hkey hend) h₁ .char hcond rfl).next hw h₂
    (.expect (.call hw table_choice rfl hthen rfl rfl rfl))

theorem if_part (hw : w.rules = table) (hkey : c.Spans "if".toList c₁) (hend : WordEnd c₁.rest) (h₁ : Over c₁ c₂)
    (hcond : Condition w c₂ e c₃) (h₂ : Over c₃ c₄) (hthen : Part w "Statement" [] c₄ (.statement s) d) {r : List Char}
    (hr : afterGap d.rest = some r) (helse : FirstWord (· ≠ "else") r) :
    Part w "If" [] c (.statement (.ifElse e s none (w.span c d))) d := by
  have hhead := if_head hw hkey hend h₁ hcond h₂ hthen
  obtain ⟨d', hs, hd'⟩ | ⟨-, hnone⟩ := skip_blanks hw ⟨[("Cond", .expr e), ("Then", .statement s)], none, c.offset⟩ d
  · obtain rfl : d'.rest = r := Option.some.inj (hd'.symm.trans hr)
    have hno : NotAt ["else"] d' := helse.notAt (by decide)
    exact Steps.part ifElse hw table_if rfl rfl rfl ⟨.seq_empty hhead.derives hs
      (.opt_miss (.seq_first (keyword_miss (hno "else" (by simp))))) rfl, hhead.moves⟩ rfl rfl
  · cases hnone.symm.trans hr

theorem if_else_part (hw : w.rules = table) (hkey : c.Spans "if".toList c₁) (hend : WordEnd c₁.rest) (h₁ : Over c₁ c₂)
    (hcond : Condition w c₂ e c₃) (h₂ : Over c₃ c₄) (hthen : Part w "Statement" [] c₄ (.statement s) c₅)
    {c₆ c₇ c₈ : Cursor} {s' : Statement} (h₃ : Over c₅ c₆) (helse : c₆.Spans "else".toList c₇) (hend' : WordEnd c₇.rest)
    (h₄ : Over c₇ c₈) (hother : Part w "Statement" [] c₈ (.statement s') d) :
    Part w "If" [] c (.statement (.ifElse e s (some s') (w.span c d))) d :=
  Steps.part ifElse hw table_if rfl rfl rfl ((if_head hw hkey hend h₁ hcond h₂ hthen).next hw h₃
    (.opt ((Steps.keyword (by decide) helse hend').next hw h₄
      (.expect (.call hw table_choice rfl hother rfl rfl rfl))))) rfl rfl

theorem while_part (hw : w.rules = table) (hkey : c.Spans "while".toList c₁) (hend : WordEnd c₁.rest)
    (h₁ : Over c₁ c₂) (hcond : Condition w c₂ e c₃) (h₂ : Over c₃ c₄)
    (hbody : Part w "Statement" [] c₄ (.statement s) d) :
    Part w "While" [] c (.statement (.whileLoop e s (w.span c d))) d :=
  Steps.part whileLoop hw table_while rfl rfl rfl ((Steps.condition hw (.keyword (by decide) hkey hend) h₁ .char
    hcond rfl).next hw h₂ (.expect (.call hw table_choice rfl hbody rfl rfl rfl))) rfl rfl

theorem doWhile_part (hw : w.rules = table) (hkey : c.Spans "do".toList c₁) (hend : WordEnd c₁.rest)
    (h₁ : Over c₁ c₂) (hbody : Part w "Statement" [] c₂ (.statement s) c₃) (h₂ : Over c₃ c₄)
    (hkey' : c₄.Spans "while".toList c₅) (hend' : WordEnd c₅.rest) {c₆ c₇ c₈ : Cursor} (h₃ : Over c₅ c₆)
    (hcond : Condition w c₆ e c₇) (h₄ : Over c₇ c₈) (hstop : c₈.Spans [';'] d) :
    Part w "DoWhile" [] c (.statement (.doWhile s e (w.span c d))) d :=
  Steps.part doWhile hw table_doWhile rfl rfl rfl ((Steps.condition hw (((Steps.keyword (by decide) hkey hend).next
    hw h₁ (.expect (.call hw table_choice rfl hbody rfl rfl rfl))).next hw h₂
    (.expect (.keyword (by decide) hkey' hend'))) h₃ (fun h => .expect (.char h)) hcond rfl).next hw h₄
    (.expect (.char hstop))) rfl rfl

theorem table_forInit : table[idOf "ForInit"]? =
    some (ofStatements (oneOf "ForInit" ["ConstructionBody", "AssignmentBody", "ExpressionBody"])) :=
  table_statement (oneOf "ForInit" ["ConstructionBody", "AssignmentBody", "ExpressionBody"]) (by simp [Statements.grammar])

theorem table_forStep :
    table[idOf "ForStep"]? = some (ofStatements (oneOf "ForStep" ["AssignmentBody", "ExpressionBody"])) :=
  table_statement (oneOf "ForStep" ["AssignmentBody", "ExpressionBody"]) (by simp [Statements.grammar])

theorem for_part (hw : w.rules = table) (hkey : c.Spans "for".toList c₁) (hend : WordEnd c₁.rest) (h₁ : Over c₁ c₂)
    (hopen : c₂.Spans ['('] c₃) {init step : Option Statement} {condition : Option Expr} {c₆ c₇ c₈ c₉ c₁₀ c₁₁ c₁₂ : Cursor}
    (hinit : Maybe w "ForInit" [] c₃ c₄ (init.map .statement)) (h₂ : Over c₄ c₅) (hstop : c₅.Spans [';'] c₆)
    (hcond : Maybe w "Expression" [.mode {}] c₆ c₇ (condition.map .expr)) (h₃ : Over c₇ c₈) (hstop' : c₈.Spans [';'] c₉)
    (hstep : Maybe w "ForStep" [] c₉ c₁₀ (step.map .statement)) (h₄ : Over c₁₀ c₁₁) (hclose : c₁₁.Spans [')'] c₁₂)
    {c₁₃ : Cursor} (h₅ : Over c₁₂ c₁₃) (hbody : Part w "Statement" [] c₁₃ (.statement s) d) :
    Part w "For" [] c (.statement (.forLoop init condition step s (w.span c d))) d := by
  have hhead : Steps w (ofStatements forRule) (.seq (.keyword "for") (.expect (.char '('))) ⟨[], none, c.offset⟩ c
      ⟨[], none, c.offset⟩ c₃ := (Steps.keyword (by decide) hkey hend).next hw h₁ (.expect (.char hopen))
  have hsteps := ((((((hhead.maybe (k := callAt "Init" "ForInit" 0) hw table_forInit rfl hinit rfl rfl rfl).next hw h₂
    (.expect (.char hstop))).maybe (k := callAt "Cond" "Expression" 1) hw table_expression rfl hcond rfl rfl rfl).next hw h₃
    (.expect (.char hstop'))).maybe (k := callAt "Step" "ForStep" 0) hw table_forStep rfl hstep rfl rfl rfl).next hw h₄
    (.expect (.char hclose))).next hw h₅
    (.expect (.call (k := callAt "Body" "Statement" 0) hw table_choice rfl hbody rfl rfl rfl))
  cases init <;> cases condition <;> cases step <;>
    exact Steps.part forLoop hw table_for rfl rfl rfl hsteps rfl rfl

theorem return_part (hw : w.rules = table) (hkey : c.Spans "return".toList c₁) (hend : WordEnd c₁.rest)
    {value : Option Expr} (hvalue : Maybe w "Expression" [.mode {}] c₁ c₂ (value.map .expr)) (h₁ : Over c₂ c₃)
    (hstop : c₃.Spans [';'] d) : Part w "Return" [] c (.statement (.ret value (w.span c d))) d := by
  have hhead : Steps w (ofStatements returnRule) (.keyword "return") ⟨[], none, c.offset⟩ c ⟨[], none, c.offset⟩ c₁ :=
    .keyword (by decide) hkey hend
  have hsteps := (hhead.maybe (k := callAt "Value" "Expression" 1) hw table_expression rfl hvalue rfl rfl rfl).next hw h₁
    (.expect (.char hstop))
  cases value <;> exact Steps.part ret hw table_return rfl rfl rfl hsteps rfl rfl

theorem break_part (hw : w.rules = table) (hkey : c.Spans "break".toList c₁) (hend : WordEnd c₁.rest)
    (h₁ : Over c₁ c₂) (hstop : c₂.Spans [';'] d) : Part w "Break" [] c (.statement (.breakLoop (w.span c d))) d :=
  Steps.part (fun ctx m => finish ctx (.breakLoop m.span)) hw table_break rfl rfl rfl ((Steps.keyword (by decide) hkey hend).next hw h₁
    (.expect (.char hstop))) rfl rfl

theorem continue_part (hw : w.rules = table) (hkey : c.Spans "continue".toList c₁) (hend : WordEnd c₁.rest)
    (h₁ : Over c₁ c₂) (hstop : c₂.Spans [';'] d) : Part w "Continue" [] c (.statement (.continueLoop (w.span c d))) d :=
  Steps.part (fun ctx m => finish ctx (.continueLoop m.span)) hw table_continue rfl rfl rfl ((Steps.keyword (by decide) hkey hend).next hw h₁
    (.expect (.char hstop))) rfl rfl

/-! ## Statements that end in a semicolon -/

variable {t : TypeExpr} {x : List Char}

theorem construction_head (hw : w.rules = table) (htype : Part w "TypeExpr" [] c (.type t) c₁) (h₁ : Over c₁ c₂)
    (hx : isName x = true) (hname : c₂.Spans x d) (hend : WordEnd d.rest) :
    Steps w (ofStatements constructionBodyRule) (.seq (.call (callAt "TypeExpr" "TypeExpr" 0))
      (.call (callAt "Identifier" "Identifier" 0))) ⟨[], none, c.offset⟩ c
      ⟨[("TypeExpr", .type t), ("Identifier", .identifier ⟨String.ofList x, w.span c₂ d⟩)], none, c.offset⟩ d := by
  have hpart : Part w "Identifier" [] c₂ (.identifier ⟨String.ofList x, w.span c₂ d⟩) d := by
    refine ⟨name_hit hw hx hname hend, Spans.moves hname ?_⟩
    rintro rfl
    cases hx
  exact (Steps.call (k := callAt "TypeExpr" "TypeExpr" 0) hw table_type rfl htype rfl rfl rfl).next hw h₁
    (.call hw table_name rfl hpart rfl rfl rfl)

theorem construction_part (hw : w.rules = table) (htype : Part w "TypeExpr" [] c (.type t) c₁) (h₁ : Over c₁ c₂)
    (hx : isName x = true) (hname : c₂.Spans x d) (hend : WordEnd d.rest) {d' : Cursor} (ho : Over d d')
    (hno : d'.rest.head? ≠ some '=') :
    Part w "ConstructionBody" [] c
      (.statement (.construction t ⟨String.ofList x, w.span c₂ d⟩ none (w.span c d))) d :=
  Steps.part construction hw table_constructionBody rfl rfl rfl
    ((construction_head hw htype h₁ hx hname hend).without hw ho (.seq_first (.char_of_head hno))) rfl rfl

theorem construction_init_part (hw : w.rules = table) (htype : Part w "TypeExpr" [] c (.type t) c₁) (h₁ : Over c₁ c₂)
    (hx : isName x = true) (hname : c₂.Spans x c₃) (hend : WordEnd c₃.rest) (h₂ : Over c₃ c₄)
    (hsign : c₄.Spans ['='] c₅) {c₆ : Cursor} (h₃ : Over c₅ c₆)
    (hinit : Part w "Expression" [.mode {}] c₆ (.expr e) d) :
    Part w "ConstructionBody" [] c
      (.statement (.construction t ⟨String.ofList x, w.span c₂ c₃⟩ (some e) (w.span c d))) d :=
  Steps.part construction hw table_constructionBody rfl rfl rfl
    ((construction_head hw htype h₁ hx hname hend).next hw h₂ (.opt ((Steps.char hsign).next hw h₃
      (.expect (.call hw table_expression rfl hinit rfl rfl rfl))))) rfl rfl

theorem assignment_part (hw : w.rules = table) (htarget : Part w "Postfix" [.mode ⟨true⟩] c (.expr e) c₁)
    (h₁ : Over c₁ c₂) (hsign : c₂.Spans ['='] c₃) (hno : c₃.rest.head? ≠ some '=') (h₂ : Over c₃ c₄) {e' : Expr}
    (hvalue : Part w "Expression" [.mode {}] c₄ (.expr e') d) :
    Part w "AssignmentBody" [] c (.statement (.assignment e e' (w.span c d))) d := by
  have hequal : ¬ "==".toList <+: c₂.rest := by
    rintro ⟨u, hu⟩
    rw [hsign.rest] at hu
    have hrest : c₃.rest = '=' :: u := (List.cons.inj hu).2.symm
    exact hno (by rw [hrest]; rfl)
  have hassign : Steps w (ofStatements assignmentBodyRule) (.diff (.char '=') (.text "=="))
      ⟨[("Target", .expr e)], none, c.offset⟩ c₂ ⟨[("Target", .expr e)], none, c.offset⟩ c₃ :=
    ⟨single_hit hsign hequal, Spans.moves hsign (by simp)⟩
  exact Steps.part assignment hw table_assignmentBody rfl rfl rfl
    (((Steps.call (k := callAt "Target" "Postfix" 1) hw table_postfix rfl htarget rfl rfl rfl).next hw h₁ hassign).next hw
      h₂ (.expect (.call hw table_expression rfl hvalue rfl rfl rfl))) rfl rfl

theorem expression_part (hw : w.rules = table) (h : Part w "Expression" [.mode {}] c (.expr e) d) :
    Part w "ExpressionBody" [] c (.statement (.expression e (w.span c d))) d :=
  Steps.part expressionBody hw table_expressionBody rfl rfl rfl
    (.call (k := callAt "Expr" "Expression" 1) hw table_expression rfl h rfl rfl rfl) rfl rfl

theorem empty_part (hw : w.rules = table) (hc : c.Spans [';'] d) :
    Part w "Empty" [] c (.statement (.empty (w.span c d))) d :=
  ⟨yields_of hw table_empty rfl (.act_pass (.char_of_spans hc) rfl rfl) rfl, Spans.moves hc (by simp)⟩

/-- A kind of statement is a body and a semicolon. -/
structure Terminates (name body : String) : Prop where
  place : table[idOf name]? = some (ofStatements (terminated name body))
  called : calledName body = body
  callee : ∃ callee, table[idOf body]? = some callee ∧ callee.hasValue = true

theorem terminates_construction : Terminates "Construction" "ConstructionBody" :=
  ⟨table_statement (terminated "Construction" "ConstructionBody") (by simp [Statements.grammar]), rfl, _, table_constructionBody, rfl⟩

theorem terminates_assignment : Terminates "Assignment" "AssignmentBody" :=
  ⟨table_statement (terminated "Assignment" "AssignmentBody") (by simp [Statements.grammar]), rfl, _, table_assignmentBody, rfl⟩

theorem terminates_expression : Terminates "ExpressionStatement" "ExpressionBody" :=
  ⟨table_statement (terminated "ExpressionStatement" "ExpressionBody") (by simp [Statements.grammar]), rfl, _, table_expressionBody, rfl⟩

theorem Terminates.part (ht : Terminates name body) (hw : w.rules = table) (h : Part w body [] c (.statement s) c₁)
    (ho : Over c₁ c₂) (hstop : c₂.Spans [';'] d) : Part w name [] c (.statement (s.extendTo d.offset)) d := by
  obtain ⟨callee, hc, hv⟩ := ht.callee
  exact Steps.part terminate hw ht.place rfl rfl rfl ((Steps.call (k := ⟨"Body", body, 0, some (idOf (calledName body))⟩)
    hw hc hv h (by rw [ht.called]) rfl rfl).next hw ho (.expect (.char hstop))) rfl rfl

theorem Terminates.miss (ht : Terminates name body) (hw : w.rules = table) (h : Misses w blanks body [] c) :
    Misses w blanks name [] c :=
  misses_of hw ht.place rfl (.act_miss (.seq_first
    (h.call (k := ⟨"Body", body, 0, some (idOf (calledName body))⟩) (by rw [ht.called]) rfl rfl)))

/-! ## Where statements do not begin -/

/-- The keywords that statements begin with. -/
def leads : List String := ["if", "while", "do", "for", "return", "break", "continue"]

def led : List String := ["If", "While", "DoWhile", "For", "Return", "Break", "Continue"]

/-- A statement that begins with a keyword is not where the keyword is not. -/
theorem lead_miss (hw : w.rules = table) : ∀ p ∈ leads.zip led, NotAt [p.1] c → Misses w blanks p.2 [] c := by
  have hkey : ∀ {rule : Rule Value} {ctx : Context Value} {word : String}, NotAt [word] c →
      Derives w blanks (.pattern rule (.keyword word) ctx) c (.miss ctx) :=
    fun h => keyword_miss (h _ List.mem_cons_self)
  simp only [leads, led, List.zip_cons_cons, List.zip_nil_right, List.forall_mem_cons]
  refine ⟨fun h => ?_, fun h => ?_, fun h => ?_, fun h => ?_, fun h => ?_, fun h => ?_, fun h => ?_, fun p hp => ?_⟩
  · exact misses_of hw table_if rfl (.act_miss (.seq_first (.seq_first (.seq_first (.seq_first (.seq_first (hkey h)))))))
  · exact misses_of hw table_while rfl (.act_miss (.seq_first (.seq_first (.seq_first (.seq_first (hkey h))))))
  · exact misses_of hw table_doWhile rfl (.act_miss (.seq_first (.seq_first (.seq_first (.seq_first
      (.seq_first (.seq_first (hkey h))))))))
  · exact misses_of hw table_for rfl (.act_miss (.seq_first (.seq_first (.seq_first (.seq_first
      (.seq_first (.seq_first (.seq_first (.seq_first (hkey h))))))))))
  · exact misses_of hw table_return rfl (.act_miss (.seq_first (.seq_first (hkey h))))
  · exact misses_of hw table_break rfl (.act_miss (.seq_first (hkey h)))
  · exact misses_of hw table_continue rfl (.act_miss (.seq_first (hkey h)))
  · cases hp

theorem led_miss (hw : w.rules = table) (h : NotAt leads c) : ∀ n ∈ led, Misses w blanks n [] c := by
  have hpaired : ∀ n ∈ led, ∃ p ∈ leads.zip led, p.1 ∈ leads ∧ p.2 = n := by decide
  intro n hn
  obtain ⟨p, hp, hlead, rfl⟩ := hpaired n hn
  exact lead_miss hw p hp fun word hword => h word (List.mem_singleton.1 hword ▸ hlead)

theorem compound_miss (hw : w.rules = table) (h : c.rest.head? ≠ some '\x7b') : Misses w blanks "Compound" [] c :=
  misses_of hw table_compound rfl (.seq_first (.seq_first (.act_miss (.char_of_head h))))

theorem empty_miss (hw : w.rules = table) (h : c.rest.head? ≠ some ';') : Misses w blanks "Empty" [] c :=
  misses_of hw table_empty rfl (.act_miss (.char_of_head h))

/-- What begins as an expression does is no declaration. -/
theorem Beginning.construction_miss (hw : w.rules = table) (h : Beginning x) (hc : c.Spans x d) (hd : Breaks d.rest) :
    Misses w blanks "ConstructionBody" [] c := by
  -- The type is the dotted name at the beginning, and no name follows it.
  have hdotted : ∀ {z : List Char} {d₁ : Cursor}, Dotted z → c.Spans z d₁ → Breaks d₁.rest →
      Misses w blanks "ConstructionBody" [] c := by
    intro z d₁ hz hcz hd₁
    obtain ⟨r, hr, hno, -⟩ := hd₁.next
    have hcall : Derives w blanks (.pattern (ofStatements constructionBodyRule) (.call (callAt "TypeExpr" "TypeExpr" 0))
        ⟨[], none, c.offset⟩) c (.hit _ d₁) := (hd₁.type hw hz hcz).call hw table_type rfl rfl rfl rfl
    obtain ⟨d₂, hs, hd₂⟩ | ⟨-, hnone⟩ := skip_blanks hw _ d₁
    · obtain rfl : d₂.rest = r := Option.some.inj (hd₂.symm.trans hr)
      exact misses_of hw table_constructionBody rfl (.act_miss (.seq_first (.seq_second hcall hs
        ((name_miss_noWord hw hno).call rfl rfl rfl))))
    · cases hnone.symm.trans hr
  cases h with
  | dotted h => exact hdotted h hc hd
  | broken hx hz hu =>
    subst hx
    obtain ⟨d₁, hcz, hcu⟩ := Cursor.spans_append.1 hc
    exact hdotted hz hcz (by rw [hcu.rest]; exact hu _)
  | nameless h =>
    have hstanding : ∀ s ∈ standing, s ∈ keywords ∧ s ∉ BasicType.all.map (·.keyword) := by decide
    have htype : Misses w blanks "TypeExpr" [] c := by
      refine type_miss hw fun y e hy he hend => hstanding _ (h d.rest hd.word y e.rest hy ?_ hend)
      rw [← hc.rest, he.rest]
    exact misses_of hw table_constructionBody rfl (.act_miss (.seq_first (.seq_first
      (htype.call rfl rfl rfl))))

theorem assignment_miss (hw : w.rules = table)
    (h : Misses w blanks "Postfix" [.mode ⟨true⟩] c ∨
      ∃ v d, Yields w blanks "Postfix" [.mode ⟨true⟩] c v d ∧ Settles d.rest) :
    Misses w blanks "AssignmentBody" [] c := by
  obtain h | ⟨v, d, hv, hd⟩ := h
  · exact misses_of hw table_assignmentBody rfl (.act_miss (.seq_first (.seq_first
      (h.call rfl rfl rfl))))
  · have hcall : Derives w blanks (.pattern (ofStatements assignmentBodyRule) (.call (callAt "Target" "Postfix" 1))
        ⟨[], none, c.offset⟩) c (.hit _ d) := hv.call hw table_postfix rfl rfl rfl rfl
    obtain ⟨r, hr, -⟩ := hd.ends.next
    obtain ⟨d₁, hs, hd₁⟩ | ⟨-, hnone⟩ := skip_blanks hw _ d
    · refine misses_of hw table_assignmentBody rfl (.act_miss (.seq_first (.seq_second hcall hs
        (single_miss (fun hhead => ?_) ⟨['='], rfl⟩))))
      obtain ⟨u, hu⟩ := List.head?_eq_some_iff.1 hhead
      obtain ⟨u', rfl⟩ := List.head?_eq_some_iff.1 (hd.unassigned u (by rw [hd₁, hu]))
      exact ⟨u', hu.symm⟩
    · cases hnone.symm.trans hr

/-- The bodies of statements that end in a semicolon. -/
def bodies : List String := ["ConstructionBody", "AssignmentBody", "ExpressionBody"]

theorem bodies_miss (hw : w.rules = table) (h : ∀ ch ∈ c.rest.head?, isOpening ch = false) :
    ∀ n ∈ bodies, Misses w blanks n [] c := by
  have hno : NoWord c.rest := by
    intro ch hch
    have := h ch hch
    simp only [isOpening, Bool.or_eq_false_iff] at this
    exact this.1.1
  intro n hn
  simp only [bodies, List.mem_cons, List.not_mem_nil, or_false] at hn
  rcases hn with rfl | rfl | rfl
  · have htype : Misses w blanks "TypeExpr" [] c :=
      type_miss hw fun y e hy he hend => (firstWord_of_noWord (P := fun _ => False) hno y e.rest hy he.rest hend).elim
    exact misses_of hw table_constructionBody rfl (.act_miss (.seq_first (.seq_first
      (htype.call rfl rfl rfl))))
  · have hprimary : Misses w blanks "Primary" [.mode ⟨true⟩] c := primary_miss hw fun ch hch hopen => by
      rw [h ch hch] at hopen
      cases hopen
    exact assignment_miss hw (.inl (misses_of hw table_postfix rfl (.seq_first
      (hprimary.call rfl (argumentsOf_forward rfl rfl) rfl))))
  · have hexpression : Misses w blanks "Expression" [.mode {}] c := expression_miss_head hw h
    exact misses_of hw table_expressionBody rfl (.act_miss (hexpression.call rfl rfl rfl))

/-! ## Choices -/

theorem chooses_statement :
    Chooses "Statement" alternatives (ofStatements (oneOf "Statement" alternatives)) where
  place := table_choice
  plain := rfl
  nonempty := by simp [alternatives]
  definition := aimed_choice (.rule "Compound") _
  each := by
    intro name hn
    simp only [alternatives, List.mem_cons, List.not_mem_nil, or_false] at hn
    rcases hn with rfl | rfl | rfl | rfl | rfl | rfl | rfl | rfl | rfl | rfl | rfl | rfl
    · exact ⟨rfl, rfl, ⟨_, table_compound, rfl⟩, fun _ _ => rfl⟩
    · exact ⟨rfl, rfl, ⟨_, table_if, rfl⟩, fun _ _ => rfl⟩
    · exact ⟨rfl, rfl, ⟨_, table_while, rfl⟩, fun _ _ => rfl⟩
    · exact ⟨rfl, rfl, ⟨_, table_doWhile, rfl⟩, fun _ _ => rfl⟩
    · exact ⟨rfl, rfl, ⟨_, table_for, rfl⟩, fun _ _ => rfl⟩
    · exact ⟨rfl, rfl, ⟨_, table_return, rfl⟩, fun _ _ => rfl⟩
    · exact ⟨rfl, rfl, ⟨_, table_break, rfl⟩, fun _ _ => rfl⟩
    · exact ⟨rfl, rfl, ⟨_, table_continue, rfl⟩, fun _ _ => rfl⟩
    · exact ⟨rfl, rfl, ⟨_, terminates_construction.place, rfl⟩, fun _ _ => rfl⟩
    · exact ⟨rfl, rfl, ⟨_, terminates_assignment.place, rfl⟩, fun _ _ => rfl⟩
    · exact ⟨rfl, rfl, ⟨_, terminates_expression.place, rfl⟩, fun _ _ => rfl⟩
    · exact ⟨rfl, rfl, ⟨_, table_empty, rfl⟩, fun _ _ => rfl⟩

theorem bodies_chosen {rule : Rule Value} {names : List String} (hn : names ⊆ bodies)
    (h : ∀ n ∈ names, rule.preCall? n = none ∧ ∀ ctx v, rule.takeUp n ctx v = ctx.setValue v) :
    ∀ n ∈ names, calledName n = n ∧ rule.preCall? n = none ∧
      (∃ callee, table[idOf n]? = some callee ∧ callee.hasValue = true) ∧
      ∀ ctx v, rule.takeUp n ctx v = ctx.setValue v := by
  intro n hmem
  obtain ⟨hpre, htake⟩ := h n hmem
  have hbody := hn hmem
  simp only [bodies, List.mem_cons, List.not_mem_nil, or_false] at hbody
  rcases hbody with rfl | rfl | rfl
  · exact ⟨rfl, hpre, ⟨_, table_constructionBody, rfl⟩, htake⟩
  · exact ⟨rfl, hpre, ⟨_, table_assignmentBody, rfl⟩, htake⟩
  · exact ⟨rfl, hpre, ⟨_, table_expressionBody, rfl⟩, htake⟩

theorem chooses_forInit : Chooses "ForInit" bodies (ofStatements (oneOf "ForInit" bodies)) where
  place := table_forInit
  plain := rfl
  nonempty := by simp [bodies]
  definition := aimed_choice (.rule "ConstructionBody") _
  each := bodies_chosen (fun _ => id) (by
    simp only [bodies, List.forall_mem_cons, List.not_mem_nil, false_implies, implies_true, and_true]
    exact ⟨⟨rfl, fun _ _ => rfl⟩, ⟨rfl, fun _ _ => rfl⟩, rfl, fun _ _ => rfl⟩)

theorem chooses_forStep :
    Chooses "ForStep" ["AssignmentBody", "ExpressionBody"] (ofStatements (oneOf "ForStep" ["AssignmentBody", "ExpressionBody"])) where
  place := table_forStep
  plain := rfl
  nonempty := by simp
  definition := aimed_choice (.rule "AssignmentBody") _
  each := bodies_chosen (by decide) (by
    simp only [List.forall_mem_cons, List.not_mem_nil, false_implies, implies_true, and_true]
    exact ⟨⟨rfl, fun _ _ => rfl⟩, rfl, fun _ _ => rfl⟩)

theorem statement_part (hw : w.rules = table) (before : List String) {after : List String}
    (hl : alternatives = before ++ name :: after) (hm : ∀ m ∈ before, Misses w blanks m [] c)
    (h : Part w name [] c v d) : Part w "Statement" [] c v d :=
  ⟨chooses_statement.first hw before hl hm h.yields, h.moves⟩

/-- Where neither a block nor a keyword of a statement begins. -/
theorem before_construction (hw : w.rules = table) (hopen : c.rest.head? ≠ some '\x7b') (hkey : NotAt leads c) :
    ∀ n ∈ "Compound" :: led, Misses w blanks n [] c :=
  List.forall_mem_cons.2 ⟨compound_miss hw hopen, led_miss hw hkey⟩

theorem statement_miss (hw : w.rules = table) (h : ∀ ch ∈ c.rest.head?, isOpening ch = false)
    (hopen : c.rest.head? ≠ some '\x7b') (hstop : c.rest.head? ≠ some ';') : Misses w blanks "Statement" [] c := by
  have hno : NoWord c.rest := by
    intro ch hch
    have := h ch hch
    simp only [isOpening, Bool.or_eq_false_iff] at this
    exact this.1.1
  have hbodies := bodies_miss hw h
  refine chooses_statement.none hw fun n hn => ?_
  rw [show alternatives = ("Compound" :: led) ++ ["Construction", "Assignment", "ExpressionStatement", "Empty"] from rfl,
    List.mem_append] at hn
  rcases hn with hn | hn
  · exact before_construction hw hopen (notAt_of_noWord (by decide) hno) n hn
  simp only [List.mem_cons, List.not_mem_nil, or_false] at hn
  rcases hn with rfl | rfl | rfl | rfl
  · exact terminates_construction.miss hw (hbodies _ (by simp [bodies]))
  · exact terminates_assignment.miss hw (hbodies _ (by simp [bodies]))
  · exact terminates_expression.miss hw (hbodies _ (by simp [bodies]))
  · exact empty_miss hw hstop

/-! ## Blocks -/

theorem gathers_statements : Gathers (ofStatements compoundRule) (callAt "Item" "Statement" 0) "Statement" "items" :=
  ⟨rfl, ⟨_, table_choice, rfl⟩, ⟨rfl, fun _ => rfl⟩, fun _ _ => rfl⟩

theorem compound_part (hw : w.rules = table) {ss : List Statement} (hopen : c.Spans ['\x7b'] c₁)
    (h : Row w "Statement" .statement c₁ ss c₂) (ho : Over c₂ c₃) (hclose : c₃.Spans ['\x7d'] d) :
    Part w "Compound" [] c (.statement (.compound ss (w.span c d))) d := by
  have hhead : c₃.rest.head? = some '\x7d' := by rw [hclose.rest]; rfl
  have hmiss : Misses w blanks "Statement" [] c₃ :=
    statement_miss hw (by rw [hhead]; rintro _ ⟨⟩; decide) (by rw [hhead]; decide) (by rw [hhead]; decide)
  have hstop : ∀ ctx, Derives w blanks (.pattern (ofStatements compoundRule) (.call (callAt "Item" "Statement" 0)) ctx) c₃
      (.miss ctx) := fun ctx => hmiss.call rfl rfl rfl
  have hbegin : Steps w (ofStatements compoundRule) (.act "Open" (.char '\x7b')) ⟨[], none, c.offset⟩ c
      ⟨[("items", .list [])], none, c.offset⟩ c₁ :=
    ⟨.act_pass (.char_of_spans hopen) rfl rfl, Spans.moves hopen (by simp)⟩
  have hctx : Keeps (⟨[("items", .list [])], none, c.offset⟩ : Context Value) "items" Value.statement [] := .inl rfl
  -- The items, up to the closing brace.
  obtain ⟨ctx', hctx', hstart, hitems⟩ : ∃ ctx', Keeps ctx' "items" Value.statement ss ∧ ctx'.start = c.offset ∧
      Steps w (ofStatements compoundRule) (.seq (.act "Open" (.char '\x7b'))
        (.many (.call (callAt "Item" "Statement" 0)))) ⟨[], none, c.offset⟩ c ctx' c₂ := by
    have hne : c₃.rest ≠ [] := by rw [hclose.rest]; exact nofun
    cases h with
    | nil =>
      exact ⟨_, hctx, rfl, .seq_empty hbegin.derives (ho.skips hw _)
        (.many (.rounds_miss hne .skip_none (hstop _))) rfl, hbegin.moves⟩
    | cons ho' h hr =>
      have hend : ∀ ctx, Derives w blanks (.rounds (ofStatements compoundRule) (.call (callAt "Item" "Statement" 0)) false
          ctx) c₂ (.hit ctx c₂) := by
        intro ctx
        refine .rounds_miss ?_ (ho.skips hw ctx) (hstop ctx)
        obtain ⟨g, -, hg, -⟩ := ho
        rw [hg.rest]
        exact fun hnil => hne (List.append_eq_nil_iff.1 hnil).2
      obtain ⟨ctx', hctx', hstart, hmany⟩ := hr.many gathers_statements hw h hend hctx
      exact ⟨ctx', hctx', hstart, hbegin.next hw ho' hmany⟩
  have hact : closeBlock ctx' (w.matched c₃ d) = finish (ctx'.take "items").2 (.compound ss (w.span c d)) := by
    rw [closeBlock, hctx'.taken fun _ => rfl]
    show finish (ctx'.take "items").2 (.compound ss ⟨w.fileIndex, ctx'.start, d.offset⟩) = _
    rw [hstart]
    rfl
  have hend : Steps w (ofStatements compoundRule) (.act "Close" (.char '\x7d')) ctx' c₃ _ d :=
    ⟨.act_true closeBlock rfl (.char_of_spans hclose) hact, Spans.moves hclose (by simp)⟩
  have hwhole := hitems.next hw ho hend.expect
  exact ⟨yields_of hw table_compound rfl hwhole.derives rfl, hwhole.moves⟩

end

end PegFront.Cminor
