import PegFront.Cminor.Front
import PegFront.Proofs.Cminor.Hooks
import PegFront.Proofs.Displacement
import PegFront.Proofs.Progress
import PegFront.Proofs.Typing

/-!
# Soundness of cminor parses

Whatever the source is, a parse of cminor ends, and if it fails the source is to blame. That a parse ends is
seen in the linked patterns, and so is that every rule finds what its hooks need: both checks are computed on
the domain once. The hooks themselves keep to their signatures, which linking does not change.
-/

namespace PegFront.Cminor

/-! ## The rules of the domain -/

/-- All grammars as declared. -/
def registry : Registry Value :=
  ((Registry.empty.ensure Keywords.grammarName Keywords.plan).2.ensure Units.grammarName Units.plan).2

theorem registry_grammars : registry.grammars =
    [Lexical.grammar, Keywords.grammar, Identifiers.grammar, Types.grammar, Literals.grammar,
      Expressions.grammar, Statements.grammar, Units.grammar] := rfl

theorem link_of_domain {d : Domain Value} (h : domain = .ok d) : registry.link = .ok d := by
  unfold domain at h
  obtain ⟨_, _, h⟩ := Except.bind_eq_ok h
  obtain ⟨_, _, h⟩ := Except.bind_eq_ok h
  exact h

theorem registry_typed : ∀ g ∈ registry.grammars, ∀ rule ∈ g.rules, Typed rule := by
  rw [registry_grammars]
  simp only [List.forall_mem_cons, List.not_mem_nil, false_implies, implies_true, and_true]
  refine ⟨lexical_typed, keywords_typed, identifiers_typed, types_typed, literals_typed, expressions_typed,
    statements_typed, units_typed⟩

/-- Linking changes nothing of what the hooks do. -/
theorem domain_typed {d : Domain Value} (h : domain = .ok d) (id : RuleId) (rule : Rule Value)
    (hid : d.rules[id]? = some rule) : Typed rule := by
  obtain ⟨g, hg, declared, hd, definition, rfl⟩ := Registry.declared (link_of_domain h) hid
  exact (registry_typed g hg declared hd).redefine g.name definition

/-! ## What is computed -/

/-- The kind of value a source is read as. -/
def SourceKind.valueKind : SourceKind → ValueKind
  | .unit => .compileUnit
  | .statement => .statement
  | .expression => .expr

/-- The grammar for a kind of source has a start rule that takes the arguments it is given and yields a value
of the right kind, and no rule stands still with the skip rule of the grammar. -/
def reads (d : Domain Value) (kind : SourceKind) : Bool :=
  (d.grammar? kind.grammarName).any fun g =>
    Progress.grounded d.rules g.skip && (g.start.bind d.rule?).any fun rule =>
      kind.startArgs.map Value.typeName == rule.attributes.map (·.typeName) &&
        rule.valueType == some kind.valueKind.typeName

def audited (d : Domain Value) : Bool :=
  d.rules.all (fun rule => rule.checks d.rules (signature rule.name)) && SourceKind.all.all (reads d)

theorem domain_audited : domain.toOption.any audited = true := by decide +kernel

/-- The grammars link, and what has to be seen in the linked rules is there. -/
theorem exists_domain : ∃ d, domain = .ok d ∧ audited d = true := by
  have haudit := domain_audited
  -- With the domain in sight the case split would link the grammars a second time.
  generalize domain = outcome at haudit
  cases outcome with
  | error e => nomatch haudit
  | ok d => exact ⟨d, rfl, haudit⟩

/-! ## Parses -/

/-- An answer with a value that satisfies `P`, or with an error that the source is to blame for. -/
inductive Answers {α : Type} (P : α → Prop) : Except Stop α → Prop
  | value {a : α} (h : P a) : Answers P (.ok a)
  | missing {e : ParseError} {expected found : String} (h : e.cause = .expectationFailure expected found) :
      Answers P (.error (.error e))
  | overflow {e : ParseError} {literal typeName : String} (h : e.cause = .literalOverflow literal typeName) :
      Answers P (.error (.error e))

theorem Answers.category {α : Type} {P : α → Prop} {e : ParseError} (h : Answers P (.error (.error e))) :
    e.cause.category = .expectation ∨ e.cause.category = .input := by
  cases h with
  | missing h => exact .inl (h ▸ rfl)
  | overflow h => exact .inr (h ▸ rfl)

section
variable {d : Domain Value} {g : Grammar} {kind : SourceKind} {source : String} {options : Options}
  {session session' : Session Value}

theorem parse_eq (hd : domain = .ok d) :
    parse kind source options session = parseWith (.ok d) kind source options session :=
  congrArg (fun linked => parseWith linked kind source options session) hd

theorem parseWith_of_value (hg : d.grammar? kind.grammarName = some g) {v : Value}
    (h : d.parseIn g source options kind.startArgs session = (.ok (some v), session')) :
    parseWith (.ok d) kind source options session = (.ok v, session') := by
  simp only [parseWith, hg, h]

theorem parseWith_of_error (hg : d.grammar? kind.grammarName = some g) {e : Stop}
    (h : d.parseIn g source options kind.startArgs session = (.error e, session')) :
    parseWith (.ok d) kind source options session = (.error e, session') := by
  simp only [parseWith, hg, h]

end

/-- The start rule for a kind of source, and what the checks say of it. -/
theorem exists_start {d : Domain Value} (haudit : audited d = true) (kind : SourceKind) :
    ∃ g start rule, d.grammar? kind.grammarName = some g ∧ g.start = some start ∧ d.rules[start]? = some rule ∧
      Progress.grounded d.rules g.skip = true ∧
      kind.startArgs.map Value.typeName = rule.attributes.map (·.typeName) ∧
      rule.valueType = some kind.valueKind.typeName := by
  simp only [audited, Bool.and_eq_true, List.all_eq_true] at haudit
  have hreads := haudit.2 kind (by cases kind <;> decide)
  simp only [reads, Option.any_eq_true, Bool.and_eq_true, beq_iff_eq, Option.bind_eq_some_iff] at hreads
  obtain ⟨g, hg, hgrounded, rule, ⟨start, hstart, hrule⟩, hargs, hvalue⟩ := hreads
  exact ⟨g, start, rule, hg, hstart, hrule, hgrounded, hargs, hvalue⟩

theorem parse_answers (kind : SourceKind) (source : String) (options : Options) (session : Session Value) :
    Answers (·.kind = kind.valueKind) (parse kind source options session).1 := by
  obtain ⟨d, hd, haudit⟩ := exists_domain
  obtain ⟨g, start, rule, hg, hstart, hrule, hgrounded, hargs, hvalue⟩ := exists_start haudit kind
  simp only [audited, Bool.and_eq_true, Array.all_eq_true_iff_forall_mem] at haudit
  have hlinked := Registry.linked (link_of_domain hd)
  have hmem : g ∈ d.grammars := List.mem_of_find?_eq_some hg
  have hends := Progress.parseIn_ends hlinked hgrounded hmem source options kind.startArgs session
  have htyped := hlinked.parseIn_typed (domain_typed hd)
    (fun id rule hid => haudit.1 rule (Array.mem_of_getElem? hid)) hmem hstart hrule source options hargs session
  rcases hrun : d.parseIn g source options kind.startArgs session with ⟨outcome, session'⟩
  rw [hrun] at hends htyped
  rcases htyped with ⟨v, hv, htype⟩ | ⟨e, he, hexcused⟩
  · cases hv
    rw [hvalue] at htype
    obtain ⟨w, rfl, hw⟩ := Option.map_eq_some_iff.1 htype
    rw [parse_eq hd, parseWith_of_value hg hrun]
    exact .value (ValueKind.typeName_inj hw)
  · cases he
    rw [parse_eq hd, parseWith_of_error hg hrun]
    cases e with
    | exhausted => exact absurd rfl hends
    | error e =>
      rcases hexcused with ⟨expected, found, hcause⟩ | ⟨literal, typeName, hcause⟩
      · exact .missing hcause
      · exact .overflow hcause

/-- The content of the value a file is read as can always be taken. -/
theorem parseFile_answers {α : Type} {kind : SourceKind} {content? : Value → Option α}
    (h : ∀ v, kind.valueKind.Has v → ∃ a, content? v = some a) (needed : ValueKind) (source : String)
    (fileIndex : Nat) (file : String) :
    Answers (fun _ => True) (parseFile kind needed content? source fileIndex file) := by
  have hparse := parse_answers kind source { file, fileIndex } {}
  unfold parseFile
  generalize (parse kind source { file, fileIndex } {}).1 = answer at hparse
  cases hparse with
  | value hv =>
    obtain ⟨a, ha⟩ := h _ (Value.of_kind hv)
    show Answers _ ((Value.expect needed content? _).mapError Stop.error)
    rw [Value.expect, ha]
    exact .value trivial
  | missing hcause => exact .missing hcause
  | overflow hcause => exact .overflow hcause

/-- No source provokes an internal error. A parse gives a value of the kind that was asked for, whose content
can be taken, or it fails because something was expected that is not there or a literal does not fit. -/
theorem parse_sound :
    (∀ kind source options session,
      Answers (·.kind = kind.valueKind) (parse kind source options session).1) ∧
    (∀ kind source options session e, (parse kind source options session).1 = .error (.error e) →
      e.cause.category = .expectation ∨ e.cause.category = .input) ∧
    ∀ source fileIndex file,
      Answers (fun _ => True) (parseExpression source fileIndex file) ∧
      Answers (fun _ => True) (parseStatement source fileIndex file) ∧
      Answers (fun _ => True) (parseCompileUnit source fileIndex file) := by
  refine ⟨parse_answers, fun kind source options session e he => ?_, fun source fileIndex file => ⟨?_, ?_, ?_⟩⟩
  · have hanswers := parse_answers kind source options session
    rw [he] at hanswers
    exact hanswers.category
  · refine parseFile_answers ?_ _ _ _ _
    rintro _ ⟨e, rfl⟩
    exact ⟨e, rfl⟩
  · refine parseFile_answers ?_ _ _ _ _
    rintro _ ⟨s, rfl⟩
    exact ⟨s, rfl⟩
  · refine parseFile_answers ?_ _ _ _ _
    rintro _ ⟨u, rfl⟩
    exact ⟨u, rfl⟩

/-! ## Termination -/

/-- The answer of a run of the start rule is the answer of the parse. -/
theorem parse_eq_run {d : Domain Value} {g : Grammar} {kind : SourceKind} {start : RuleId} {rule : Rule Value}
    (hd : domain = .ok d) (hg : d.grammar? kind.grammarName = some g) (hstart : g.start = some start)
    (hrule : d.rules[start]? = some rule) (ha : kind.startArgs.length = rule.arity) (source : String)
    (options : Options) (session : Session Value) :
    (parse kind source options session).1.map some =
      (outcome (Engine.runStart (Engine.invoke d.rules (d.fuelOf source)) start rule session.stack.size)
        (Domain.startState g source options (session.stack.pushAll kind.startArgs))).1 := by
  have hanswers := parse_answers kind source options session
  have hrun := congrArg Prod.fst (Domain.parseIn_eq hstart hrule source options ha session)
  dsimp only at hrun
  rw [← hrun]
  rcases hout : d.parseIn g source options kind.startArgs session with ⟨e | v, session'⟩
  · rw [parse_eq hd, parseWith_of_error hg hout]
    rfl
  · cases v with
    | some v =>
      rw [parse_eq hd, parseWith_of_value hg hout]
      rfl
    | none =>
      -- A start rule without a value would be an internal error, which no source provokes.
      rw [parse_eq hd] at hanswers
      simp only [parseWith, hg, hout] at hanswers
      cases hanswers with
      | missing h => cases h
      | overflow h => cases h

/-- The engine answers every source, valid or not, as soon as it has as much fuel as a bound on the length of the
source says: no rule calls itself, and no repetition goes round, without getting ahead in the text. More fuel does
not change the answer, which is that of `parse`. -/
theorem parse_terminates :
    ∃ d, domain = .ok d ∧ ∃ bound : Nat → Nat, ∀ kind, ∃ g start rule,
      d.grammar? kind.grammarName = some g ∧ g.start = some start ∧ d.rules[start]? = some rule ∧
      ∀ (source : String) (options : Options) (session : Session Value) (fuel : Nat),
        bound (Text.byteLength source.toList) ≤ fuel →
        (outcome (Engine.runStart (Engine.invoke d.rules fuel) start rule session.stack.size)
            (Domain.startState g source options (session.stack.pushAll kind.startArgs))).1 ≠ .error .exhausted ∧
          (outcome (Engine.runStart (Engine.invoke d.rules fuel) start rule session.stack.size)
            (Domain.startState g source options (session.stack.pushAll kind.startArgs))).1 =
          (parse kind source options session).1.map some := by
  obtain ⟨d, hd, haudit⟩ := exists_domain
  refine ⟨d, hd, Engine.fuelFor d.rules.size, fun kind => ?_⟩
  obtain ⟨g, start, rule, hg, hstart, hrule, hgrounded, hargs, hvalue⟩ := exists_start haudit kind
  refine ⟨g, start, rule, hg, hstart, hrule, fun source options session fuel hfuel => ?_⟩
  have hlinked := Registry.linked (link_of_domain hd)
  obtain ⟨hlt, -⟩ := Array.getElem?_eq_some_iff.1 hrule
  have ha : kind.startArgs.length = rule.arity := by simpa [Rule.arity] using congrArg List.length hargs
  have hends : ∀ n, Engine.fuelFor d.rules.size (Text.byteLength source.toList) ≤ n → (outcome (Engine.runStart (Engine.invoke d.rules n) start rule
      session.stack.size) (Domain.startState g source options (session.stack.pushAll kind.startArgs))).1 ≠
        .error .exhausted := by
    intro n hn hex
    exact wp_error (Progress.ends_runStart hgrounded hlinked.rules hlt rule source options _ _ hn) (Prod.ext hex rfl) rfl
  refine ⟨hends fuel hfuel, ?_⟩
  rw [parse_eq_run hd hg hstart hrule ha]
  -- Both answers are the one on just as much fuel as the bound.
  have hsame : ∀ n, Engine.fuelFor d.rules.size (Text.byteLength source.toList) ≤ n → _ := fun n hn =>
    d.runStart_fuel g start rule session.stack.size source options _ hn (hends _ (Nat.le_refl _))
  exact (hsame fuel hfuel).trans (hsame _ (Progress.fuelFor_le_fuelOf d source)).symm

end PegFront.Cminor
