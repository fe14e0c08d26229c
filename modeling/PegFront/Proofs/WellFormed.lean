import PegFront.Proofs.Nodes
import PegFront.Proofs.Resolution

/-!
# Registries that link

A registry links exactly if it is well-formed: grammars refer to registered grammars, names of rules are
distinct, every name stands for a rule, and every node of every pattern is in order. `Registry.WellFormed`
says so on the declarations alone. What a registry links to is described by `Domain.Realizes`: the rules
of all grammars, each once, in which every call goes to the rule it names.
-/

namespace PegFront

variable {V : Type}

/-! ## Well-formed registries -/

/-- The rule forwards attributes it has, and every node of its pattern is in order: actions are bound,
character sets are valid, and every call names a rule that takes as many arguments as the call passes. -/
structure Rule.WellFormed (r : Registry V) (g : GrammarDecl V) (rule : Rule V) : Prop where
  forwarded : ∀ name ∈ rule.forwarded, ∃ a ∈ rule.attributes, a.name = name
  actions : ∀ action p, rule.definition.Has (.act action p) → ∃ f, rule.action? action = some f
  sets : ∀ set, rule.definition.Has (.one (.oneOf set)) → set.invalid = none
  calls : ∀ c, rule.definition.Has (.call c) → ∃ grammar n callee, r.Resolves g c.rule grammar n ∧
    r.Declares grammar n callee ∧ callee.attributes.length = c.arity

structure Registry.WellFormed (r : Registry V) : Prop where
  references : ∀ g ∈ r.grammars, ∀ name ∈ g.references, name ∈ r.names
  distinct : ∀ g ∈ r.grammars, (g.rules.map (·.name)).Nodup
  links : ∀ g ∈ r.grammars, ∀ l ∈ g.links, ∃ grammar n rule, Qualifies l.2 grammar n ∧ r.Declares grammar n rule
  start : ∀ g ∈ r.grammars, ∀ name, g.start = some name → ∃ grammar n, r.Finds g name grammar n
  /-- Nothing can be passed to a skip rule, and nothing it leaves is kept. -/
  skip : ∀ g ∈ r.grammars, ∀ name, g.skip = some name → ∃ grammar n rule, r.Finds g name grammar n ∧
    r.Declares grammar n rule ∧ rule.attributes = [] ∧ rule.valueType = none
  rules : ∀ g ∈ r.grammars, ∀ rule ∈ g.rules, rule.WellFormed r g

/-- The domain has the rules of the registry, each once, every call in them goes to the rule it names,
and its grammars have the roles their names stand for. -/
structure Domain.Realizes (d : Domain V) (r : Registry V) : Prop where
  size : d.rules.size = (r.grammars.map (·.rules.length)).sum
  unique : ∀ {grammar n id id'}, Numbered d.rules grammar n id → Numbered d.rules grammar n id' → id = id'
  rules : ∀ g ∈ r.grammars, ∀ rule ∈ g.rules, ∃ (id : RuleId) (target : Call → RuleId),
    d.rules[id]? = some { rule with grammar := g.name, definition := rule.definition.mapCalls (Call.aim target) } ∧
    ∀ c, rule.definition.Has (.call c) →
      ∃ grammar n, r.Resolves g c.rule grammar n ∧ Numbered d.rules grammar n (target c)
  entry : ∀ (id : RuleId) rule, d.rules[id]? = some rule →
    ∃ g ∈ r.grammars, ∃ declared ∈ g.rules, rule.grammar = g.name ∧ rule.name = declared.name
  grammars : ∀ g ∈ r.grammars, ∃ g', d.grammar? g.name = some g' ∧ g'.name = g.name ∧
    Option.Rel (fun name id => ∃ grammar n, r.Finds g name grammar n ∧ Numbered d.rules grammar n id) g.start g'.start ∧
    Option.Rel (fun name id => ∃ grammar n, r.Finds g name grammar n ∧ Numbered d.rules grammar n id) g.skip g'.skip
  named : ∀ g' ∈ d.grammars, g'.name ∈ r.names

namespace Link

variable {r : Registry V} {table : Array (Rule V)} {grammars : List Grammar} {b b' : Block V} {rule : Rule V}

/-! ## Checks -/

theorem forM_eq_ok_iff {α : Type} {f : α → Except ParseError Unit} {xs : List α} :
    xs.forM f = .ok () ↔ ∀ x ∈ xs, f x = .ok () := by
  induction xs with
  | nil => simp [pure, Except.pure]
  | cons x xs ih =>
    rw [List.forall_mem_cons, ← ih]
    show (f x >>= fun _ => xs.forM f) = .ok () ↔ _
    cases f x with
    | error e => simp [bind, Except.bind]
    | ok a => simp [bind, Except.bind]

theorem checkReferences_eq_ok_iff (hi : r.Indexed) :
    checkReferences r = .ok () ↔ ∀ g ∈ r.grammars, ∀ name ∈ g.references, name ∈ r.names := by
  simp only [checkReferences, forM_eq_ok_iff, ← hi.isSome_position?]
  refine forall₂_congr fun g _ => forall₂_congr fun name _ => ?_
  split <;> simp_all

theorem checkForwarded_eq_ok_iff :
    checkForwarded rule = .ok () ↔ ∀ name ∈ rule.forwarded, ∃ a ∈ rule.attributes, a.name = name := by
  simp only [checkForwarded, forM_eq_ok_iff]
  refine forall₂_congr fun name _ => ?_
  split <;> simp_all

theorem checkNodes_eq_ok_iff :
    checkNodes rule = .ok () ↔ (∀ action p, rule.definition.Has (.act action p) → ∃ f, rule.action? action = some f) ∧
      ∀ set, rule.definition.Has (.one (.oneOf set)) → set.invalid = none := by
  have hfaults : checkNodes rule = .ok () ↔ ∀ n, rule.definition.Has n → nodeFault? rule n = none := by
    simp only [← Pattern.mem_nodes_iff, ← List.findSome?_eq_none_iff, checkNodes]
    cases rule.definition.nodes.findSome? (nodeFault? rule) <;> simp
  rw [hfaults]
  constructor
  · refine fun h => ⟨fun action p hp => ?_, fun set hs => ?_⟩
    · have := h _ hp
      simp only [nodeFault?] at this
      split at this
      · next hf => exact Option.isSome_iff_exists.1 hf
      · cases this
    · simpa [nodeFault?] using h _ hs
  · rintro ⟨hact, hset⟩ n hn
    unfold nodeFault?
    split
    · next action p =>
      obtain ⟨f, hf⟩ := hact action p hn
      simp [hf]
    · next set => simp [hset set hn]
    · rfl

theorem checkSkipRule_eq_ok_iff {g : Grammar} :
    checkSkipRule table g = .ok () ↔ ∀ id, g.skip = some id → ∀ rule, table[id]? = some rule →
      rule.attributes = [] ∧ rule.valueType = none := by
  unfold checkSkipRule
  rcases g.skip with _ | id
  · simp
  · simp only [Option.bind_some, Option.some.injEq, forall_eq']
    rcases table[id]? with _ | rule
    · simp
    · simp [Rule.arity, Rule.hasValue]

theorem resolveRole_eq_ok_iff {g : Grammar} {role : String} {name : Option String} {found : Option RuleId} :
    resolveRole g role name = .ok found ↔ Option.Rel (fun n id => g.lookup? n = some id) name found := by
  cases name with
  | none => cases found <;> simp [resolveRole]
  | some name =>
    simp only [resolveRole]
    rcases hid : g.lookup? name with _ | id
    · cases found <;> simp [hid]
    · cases found <;> simp [hid]

/-! ## Roles -/

/-- A numbered grammar with its aliases and roles. -/
structure Block.Cast (r : Registry V) (table : Array (Rule V)) (b : Block V) : Prop extends b.Aliased r table where
  start : Option.Rel (fun name id => ∃ grammar n, r.Finds b.decl name grammar n ∧ Numbered table grammar n id)
    b.decl.start b.grammar.start
  skip : Option.Rel (fun name id => ∃ grammar n, r.Finds b.decl name grammar n ∧ Numbered table grammar n id)
    b.decl.skip b.grammar.skip

theorem rel_of_role (hb : b.Aliased r table) (hd : r.names.Nodup) (ht : Tabled r table) {name : Option String}
    {found : Option RuleId} (h : Option.Rel (fun n id => b.grammar.lookup? n = some id) name found) :
    Option.Rel (fun name id => ∃ grammar n, r.Finds b.decl name grammar n ∧ Numbered table grammar n id) name found := by
  cases h with
  | none => exact .none
  | some h => exact .some ((hb.lookup?_iff hd ht).1 h)

theorem resolveRoles_cast (hb : b.Aliased r table) (hd : r.names.Nodup) (ht : Tabled r table)
    (h : resolveRoles table b = .ok b') : b'.decl = b.decl ∧ b'.Cast r table := by
  obtain ⟨start, hstart, h⟩ := Except.bind_eq_ok h
  obtain ⟨skip, hskip, h⟩ := Except.bind_eq_ok h
  obtain ⟨_, _, h⟩ := Except.bind_eq_ok h
  cases h
  refine ⟨rfl, ⟨⟨⟨hb.name, hb.references, hb.rules⟩, hb.decl, hb.own⟩, hb.links⟩, ?_, ?_⟩
  · exact rel_of_role hb hd ht (resolveRole_eq_ok_iff.1 hstart)
  · exact rel_of_role hb hd ht (resolveRole_eq_ok_iff.1 hskip)

theorem exists_resolveRole_iff (hb : b.Aliased r table) (hd : r.names.Nodup) (ht : Tabled r table) (role : String)
    {name : Option String} : (∃ found, resolveRole b.grammar role name = .ok found) ↔
      ∀ n, name = some n → ∃ grammar m, r.Finds b.decl n grammar m := by
  simp only [resolveRole_eq_ok_iff]
  cases name with
  | none => simpa using ⟨none, Option.Rel.none⟩
  | some name =>
    simp only [Option.some.injEq, forall_eq', ← hb.exists_lookup?_iff hd ht]
    constructor
    · rintro ⟨_, ⟨⟩⟩
      exact ⟨_, ‹_›⟩
    · rintro ⟨id, hid⟩
      exact ⟨some id, .some hid⟩

/-- The roles of a grammar are found if their names stand for rules, the skip rule for a plain one. -/
theorem exists_resolveRoles_iff (hb : b.Aliased r table) (hd : r.names.Nodup) (ht : Tabled r table) :
    (∃ b', resolveRoles table b = .ok b') ↔
      (∀ name, b.decl.start = some name → ∃ grammar n, r.Finds b.decl name grammar n) ∧
      ∀ name, b.decl.skip = some name → ∃ grammar n rule, r.Finds b.decl name grammar n ∧
        r.Declares grammar n rule ∧ rule.attributes = [] ∧ rule.valueType = none := by
  unfold resolveRoles
  simp only [Except.exists_bind_eq_ok_iff]
  constructor
  · rintro ⟨start, hstart, skip, hskip, _, hcheck, _⟩
    refine ⟨(exists_resolveRole_iff hb hd ht _).1 ⟨start, hstart⟩, fun name hname => ?_⟩
    rw [hname, resolveRole_eq_ok_iff] at hskip
    cases hskip with
    | some hid =>
      obtain ⟨grammar, n, hf, hnum⟩ := (hb.lookup?_iff hd ht).1 hid
      obtain ⟨rule, hdecl⟩ := hf.declares hb.decl
      have hplain := checkSkipRule_eq_ok_iff.1 hcheck _ rfl _ (ht.getElem?_of_numbered hnum hdecl)
      exact ⟨grammar, n, rule, hf, hdecl, hplain⟩
  · rintro ⟨hstart, hskip⟩
    obtain ⟨start, hstart⟩ := (exists_resolveRole_iff hb hd ht "start").2 hstart
    obtain ⟨skip, hfound⟩ := (exists_resolveRole_iff hb hd ht "skip").2 fun name hname => by
      obtain ⟨grammar, n, _, hf, _⟩ := hskip name hname
      exact ⟨grammar, n, hf⟩
    refine ⟨start, hstart, skip, hfound, (), checkSkipRule_eq_ok_iff.2 ?_, _, rfl⟩
    rintro id rfl rule hr
    rw [resolveRole_eq_ok_iff] at hfound
    generalize hs : b.decl.skip = s at hfound
    cases hfound with
    | some hid =>
      obtain ⟨grammar, n, declared, hf, hdecl, hplain⟩ := hskip _ hs
      obtain ⟨grammar', n', hf', hnum⟩ := (hb.lookup?_iff hd ht).1 hid
      obtain ⟨rfl, rfl⟩ := hf.unique hf'
      rw [ht.getElem?_of_numbered hnum hdecl, Option.some.injEq] at hr
      subst hr
      exact hplain

/-! ## Calls and rules -/

theorem linkCall_eq_ok_iff {g : Grammar} {caller : String} {c c' : Call} :
    linkCall grammars table g caller c = .ok c' ↔ ∃ id, resolve? grammars g c.rule = some id ∧
      c.arity = (match table[id]? with | some callee => callee.arity | none => 0) ∧
      c' = { c with target := some id } := by
  have hguard : ∀ (expected : Nat) (e : ParseError) (x : Call),
      (if c.arity != expected then .error e else .ok x) = Except.ok c' ↔ c.arity = expected ∧ c' = x := by
    intro expected e x
    by_cases ha : c.arity = expected
    · simp [ha, eq_comm]
    · simp [ha]
  unfold linkCall
  rcases resolve? grammars g c.rule with _ | id
  · simp
  · simp only [Option.some.injEq, exists_eq_left']
    cases table[id]? <;> exact hguard _ _ _

theorem exists_linkCall_iff (hb : b.Aliased r table) (hd : r.names.Nodup) (ht : Tabled r table)
    (hc : Covers table grammars) (caller : String) {c : Call} :
    (∃ c', linkCall grammars table b.grammar caller c = .ok c') ↔ ∃ grammar n callee,
      r.Resolves b.decl c.rule grammar n ∧ r.Declares grammar n callee ∧ callee.attributes.length = c.arity := by
  simp only [linkCall_eq_ok_iff]
  constructor
  · rintro ⟨_, id, hid, harity, _⟩
    obtain ⟨grammar, n, hr, hnum⟩ := (hb.resolve?_iff hd ht hc).1 hid
    obtain ⟨callee, hdecl⟩ := hr.declares hb.decl
    rw [ht.getElem?_of_numbered hnum hdecl] at harity
    exact ⟨grammar, n, callee, hr, hdecl, harity.symm⟩
  · rintro ⟨grammar, n, callee, hr, hdecl, harity⟩
    obtain ⟨id, hnum⟩ := (exists_numbered_iff ht).2 ⟨callee, hdecl⟩
    refine ⟨_, id, (hb.resolve?_iff hd ht hc).2 ⟨grammar, n, hr, hnum⟩, ?_, rfl⟩
    rw [ht.getElem?_of_numbered hnum hdecl]
    exact harity.symm

theorem exists_linkRule_iff (hb : b.Aliased r table) (hd : r.names.Nodup) (ht : Tabled r table)
    (hc : Covers table grammars) :
    (∃ rule', linkRule grammars table b.grammar rule = .ok rule') ↔ rule.WellFormed r b.decl := by
  simp only [linkRule, Except.exists_bind_eq_ok_iff]
  constructor
  · rintro ⟨_, hf, _, hn, definition, hdef, _⟩
    obtain ⟨hact, hset⟩ := checkNodes_eq_ok_iff.1 hn
    refine ⟨checkForwarded_eq_ok_iff.1 hf, hact, hset, fun c hcall => ?_⟩
    refine (exists_linkCall_iff hb hd ht hc _).1 (Pattern.exists_mapCallsM_iff.1 ⟨definition, hdef⟩ c ?_)
    exact Pattern.mem_nodes_iff.2 hcall
  · rintro ⟨hf, hact, hset, hcalls⟩
    obtain ⟨definition, hdef⟩ := Pattern.exists_mapCallsM_iff.2 fun c hcall =>
      (exists_linkCall_iff hb hd ht hc rule.qualifiedName).2 (hcalls c (Pattern.mem_nodes_iff.1 hcall))
    exact ⟨(), checkForwarded_eq_ok_iff.2 hf, (), checkNodes_eq_ok_iff.2 ⟨hact, hset⟩, definition, hdef, _, rfl⟩

/-- Linking sets the targets of the calls of a rule and nothing else. -/
theorem linkRule_aim (hb : b.Aliased r table) (hd : r.names.Nodup) (ht : Tabled r table)
    (hc : Covers table grammars) {rule' : Rule V} (h : linkRule grammars table b.grammar rule = .ok rule') :
    ∃ target : Call → RuleId, rule' = { rule with definition := rule.definition.mapCalls (Call.aim target) } ∧
      ∀ c, rule.definition.Has (.call c) →
        ∃ grammar n, r.Resolves b.decl c.rule grammar n ∧ Numbered table grammar n (target c) := by
  obtain ⟨_, _, h⟩ := Except.bind_eq_ok h
  obtain ⟨_, _, h⟩ := Except.bind_eq_ok h
  obtain ⟨definition, hdef, h⟩ := Except.bind_eq_ok h
  cases h
  refine ⟨fun c => (resolve? grammars b.grammar c.rule).getD 0, ?_, fun c hcall => ?_⟩
  · have haim := Pattern.mapCallsM_eq (g := Call.aim fun c => (resolve? grammars b.grammar c.rule).getD 0)
      (fun c c' hcall => ?_) hdef
    · rw [haim]
    · obtain ⟨id, hid, _, rfl⟩ := linkCall_eq_ok_iff.1 hcall
      simp [Call.aim, hid]
  · obtain ⟨c', hlink⟩ := Pattern.exists_mapCallsM_iff.1 ⟨definition, hdef⟩ c (Pattern.mem_nodes_iff.2 hcall)
    obtain ⟨id, hid, _⟩ := linkCall_eq_ok_iff.1 hlink
    dsimp only
    rw [hid]
    exact (hb.resolve?_iff hd ht hc).1 hid

/-! ## All grammars -/

/-- The grammars of a registry in the order in which they are linked. -/
def ordered (r : Registry V) : List (GrammarDecl V) :=
  (dependencyOrder r.grammars.length r.referencesOf).filterMap (r.grammars[·]?)

theorem filterMap_getElem?_range {α : Type} (xs : List α) : (List.range xs.length).filterMap (xs[·]?) = xs := by
  induction xs with
  | nil => rfl
  | cons x xs ih =>
    rw [List.length_cons, List.range_succ_eq_map, List.filterMap_cons, List.filterMap_map]
    exact congrArg (x :: ·) ih

theorem ordered_perm (hi : r.Indexed) : (ordered r).Perm r.grammars := by
  have hperm := (dependencyOrder_perm hi.referencesOf_lt).filterMap (r.grammars[·]?)
  rwa [filterMap_getElem?_range] at hperm

/-- A rule of the table and what it is linked to. -/
def Aimed (r : Registry V) (table : Array (Rule V)) (rule rule' : Rule V) : Prop :=
  ∃ g ∈ r.grammars, ∃ declared ∈ g.rules, ∃ target : Call → RuleId,
    rule = { declared with grammar := g.name } ∧ rule' = { rule with definition := rule.definition.mapCalls (Call.aim target) } ∧
    ∀ c, rule.definition.Has (.call c) →
      ∃ grammar n, r.Resolves g c.rule grammar n ∧ Numbered table grammar n (target c)

/-- The numbered grammars at a stage of linking, of which all satisfy `P`. -/
structure Stage (r : Registry V) (P : Block V → Prop) (blocks : List (Block V)) : Prop where
  decls : blocks.map (·.decl) = ordered r
  each : ∀ b ∈ blocks, P b

namespace Stage

variable {P Q : Block V → Prop} {blocks blocks' : List (Block V)}

theorem block (h : Stage r P blocks) (hi : r.Indexed) {g : GrammarDecl V} (hg : g ∈ r.grammars) :
    ∃ b ∈ blocks, b.decl = g ∧ P b := by
  obtain ⟨b, hb, rfl⟩ := List.mem_map.1 (h.decls ▸ (ordered_perm hi).mem_iff.2 hg)
  exact ⟨b, hb, rfl, h.each b hb⟩

theorem next (h : Stage r P blocks) {f : Block V → Except ParseError (Block V)}
    (hf : ∀ b, P b → ∀ b', f b = .ok b' → b'.decl = b.decl ∧ Q b') (hm : blocks.mapM f = .ok blocks') :
    Stage r Q blocks' := by
  obtain ⟨hk, hq⟩ := mapM_blocks (k := (·.decl)) (fun b hb => hf b (h.each b hb)) hm
  exact ⟨hk.trans h.decls, hq⟩

theorem covers (h : Stage r P blocks) (hi : r.Indexed) (ht : Tabled r table)
    (hp : ∀ b, P b → b.Placed r table) : Covers table (blocks.map (·.grammar)) :=
  covers_blocks ht (fun b hb => hp b (h.each b hb)) fun _ hg =>
    let ⟨b, hb, he, _⟩ := h.block hi hg
    ⟨b, hb, he⟩

/-- The rules are the same at every stage. -/
theorem flatMap_rules (h : Stage r P blocks) (hp : ∀ b, P b → b.Faithful) :
    blocks.flatMap (·.rules) = (ordered r).flatMap fun g => g.rules.map fun rule => { rule with grammar := g.name } := by
  rw [← h.decls, List.flatMap_map]
  exact List.flatMap_congr fun b hb => (hp b (h.each b hb)).rules

/-- Every rule is linked for the grammar that declares it. -/
theorem aimed (h : Stage r (Block.Cast r table) blocks) (hi : r.Indexed) (ht : Tabled r table)
    {linked : List (List (Rule V))} (hl : blocks.mapM (fun b => b.rules.mapM
      (linkRule (blocks.map (·.grammar)) table b.grammar)) = .ok linked) :
    List.Forall₂ (Aimed r table) (blocks.flatMap (·.rules)) linked.flatten := by
  refine (Except.mapM_mapM_eq_ok hl).imp fun rule rule' ⟨b, hb, hr, hlink⟩ => ?_
  have hcast := h.each b hb
  have hc := h.covers hi ht fun _ h => h.toPlaced
  rw [hcast.rules] at hr
  obtain ⟨declared, hmem, rfl⟩ := List.mem_map.1 hr
  obtain ⟨target, rfl, hcalls⟩ := linkRule_aim hcast.toAliased hi.distinct ht hc hlink
  exact ⟨b.decl, hcast.decl, declared, hmem, target, rfl, rfl, hcalls⟩

theorem number (hi : r.Indexed) (h : Link.number 0 (ordered r) = .ok blocks) :
    Stage r (Block.Placed r (blocks.flatMap (·.rules)).toArray) blocks :=
  ⟨(number_decls h).1, placed_number (ordered_perm hi) hi.distinct h⟩

end Stage

end Link

open Link

variable {r : Registry V} {d : Domain V}

/-- The stages of linking. -/
theorem Registry.exists_link_iff (r : Registry V) :
    (∃ d, r.link = .ok d) ↔ checkReferences r = .ok () ∧ ∃ blocks, number 0 (ordered r) = .ok blocks ∧
      ∃ blocks₁, blocks.mapM (resolveAliases (blocks.map (·.grammar))) = .ok blocks₁ ∧
      ∃ blocks₂, blocks₁.mapM (resolveRoles (blocks.flatMap (·.rules)).toArray) = .ok blocks₂ ∧
      ∀ b ∈ blocks₂, ∀ rule ∈ b.rules, ∃ rule', linkRule (blocks₂.map (·.grammar))
        (blocks.flatMap (·.rules)).toArray b.grammar rule = .ok rule' := by
  simp only [Registry.link, Except.exists_bind_eq_ok_iff]
  constructor
  · rintro ⟨_, hc, blocks, hb, blocks₁, h₁, blocks₂, h₂, linked, hl, _⟩
    refine ⟨hc, blocks, hb, blocks₁, h₁, blocks₂, h₂, fun b hb => ?_⟩
    exact Except.exists_mapM_eq_ok_iff.1 (Except.exists_mapM_eq_ok_iff.1 ⟨linked, hl⟩ b hb)
  · rintro ⟨hc, blocks, hb, blocks₁, h₁, blocks₂, h₂, hl⟩
    obtain ⟨linked, hl⟩ := Except.exists_mapM_eq_ok_iff.2 fun b hb => Except.exists_mapM_eq_ok_iff.2 (hl b hb)
    exact ⟨(), hc, blocks, hb, blocks₁, h₁, blocks₂, h₂, linked, hl, _, rfl⟩

theorem Registry.Indexed.wellFormed (hi : r.Indexed) (h : ∃ d, r.link = .ok d) : r.WellFormed := by
  obtain ⟨hrefs, blocks, hb, blocks₁, h₁, blocks₂, h₂, hl⟩ := r.exists_link_iff.1 h
  have hd := hi.distinct
  have ht := tabled_number (ordered_perm hi) hd hb
  have hs := Stage.number hi hb
  have hc := hs.covers hi ht fun _ h => h
  have hs₁ := hs.next (fun _ hb _ => resolveAliases_aliased hc hb) h₁
  have hs₂ := hs₁.next (fun _ hb _ => resolveRoles_cast hb hd ht) h₂
  have hc₂ := hs₂.covers hi ht fun _ h => h.toPlaced
  refine ⟨(checkReferences_eq_ok_iff hi).1 hrefs, fun g hg => ?_, fun g hg => ?_, fun g hg => ?_, fun g hg => ?_,
    fun g hg rule hr => ?_⟩
  · exact (exists_number_iff _).1 ⟨blocks, hb⟩ g ((ordered_perm hi).mem_iff.2 hg)
  · obtain ⟨b, hbm, rfl, _⟩ := hs.block hi hg
    intro l hl'
    obtain ⟨id, grammar, n, hq, hnum⟩ :=
      (exists_resolveAliases_iff hc).1 (Except.exists_mapM_eq_ok_iff.1 ⟨blocks₁, h₁⟩ b hbm) l hl'
    obtain ⟨rule, hdecl⟩ := (exists_numbered_iff ht).1 ⟨id, hnum⟩
    exact ⟨grammar, n, rule, hq, hdecl⟩
  · obtain ⟨b, hbm, rfl, hb⟩ := hs₁.block hi hg
    exact ((exists_resolveRoles_iff hb hd ht).1 (Except.exists_mapM_eq_ok_iff.1 ⟨blocks₂, h₂⟩ b hbm)).1
  · obtain ⟨b, hbm, rfl, hb⟩ := hs₁.block hi hg
    exact ((exists_resolveRoles_iff hb hd ht).1 (Except.exists_mapM_eq_ok_iff.1 ⟨blocks₂, h₂⟩ b hbm)).2
  · obtain ⟨b, hbm, rfl, hb⟩ := hs₂.block hi hg
    have hmem : { rule with grammar := b.decl.name } ∈ b.rules := by
      rw [hb.rules]
      exact List.mem_map_of_mem hr
    have hwf := (exists_linkRule_iff hb.toAliased hd ht hc₂).1 (hl b hbm _ hmem)
    exact ⟨hwf.forwarded, hwf.actions, hwf.sets, hwf.calls⟩

theorem Registry.Indexed.links (hi : r.Indexed) (h : r.WellFormed) : ∃ d, r.link = .ok d := by
  have hd := hi.distinct
  obtain ⟨blocks, hb⟩ := (exists_number_iff 0).2 fun g hg => h.distinct g ((ordered_perm hi).mem_iff.1 hg)
  have ht := tabled_number (ordered_perm hi) hd hb
  have hs := Stage.number hi hb
  have hc := hs.covers hi ht fun _ h => h
  obtain ⟨blocks₁, h₁⟩ := Except.exists_mapM_eq_ok_iff.2 fun b hbm => (exists_resolveAliases_iff hc).2 fun l hl => by
    obtain ⟨grammar, n, rule, hq, hdecl⟩ := h.links b.decl (hs.each b hbm).decl l hl
    obtain ⟨id, hnum⟩ := (exists_numbered_iff ht).2 ⟨rule, hdecl⟩
    exact ⟨id, grammar, n, hq, hnum⟩
  have hs₁ := hs.next (fun _ hb _ => resolveAliases_aliased hc hb) h₁
  obtain ⟨blocks₂, h₂⟩ := Except.exists_mapM_eq_ok_iff.2 fun b hbm =>
    (exists_resolveRoles_iff (hs₁.each b hbm) hd ht).2
      ⟨h.start b.decl (hs₁.each b hbm).decl, h.skip b.decl (hs₁.each b hbm).decl⟩
  have hs₂ := hs₁.next (fun _ hb _ => resolveRoles_cast hb hd ht) h₂
  have hc₂ := hs₂.covers hi ht fun _ h => h.toPlaced
  refine r.exists_link_iff.2 ⟨(checkReferences_eq_ok_iff hi).2 h.references, blocks, hb, blocks₁, h₁, blocks₂, h₂,
    fun b hbm rule hr => ?_⟩
  have hcast := hs₂.each b hbm
  rw [hcast.rules] at hr
  obtain ⟨declared, hmem, rfl⟩ := List.mem_map.1 hr
  have hwf := h.rules b.decl hcast.decl declared hmem
  exact (exists_linkRule_iff hcast.toAliased hd ht hc₂).2 ⟨hwf.forwarded, hwf.actions, hwf.sets, hwf.calls⟩

theorem Link.numbered_aimed {table table' : Array (Rule V)}
    (h : List.Forall₂ (Aimed r table) table.toList table'.toList) {grammar n : String} {id : RuleId} :
    Numbered table' grammar n id ↔ Numbered table grammar n id := by
  constructor
  · rintro ⟨rule', hr', rfl, rfl⟩
    obtain ⟨rule, hr, _, _, _, _, _, _, rfl, _⟩ := getElem?_of_forall₂_right h hr'
    exact ⟨rule, hr, rfl, rfl⟩
  · rintro ⟨rule, hr, rfl, rfl⟩
    obtain ⟨rule', hr', _, _, _, _, _, _, rfl, _⟩ := getElem?_of_forall₂_left h hr
    exact ⟨_, hr', rfl, rfl⟩

theorem Registry.Indexed.realizes (hi : r.Indexed) (h : r.link = .ok d) : d.Realizes r := by
  obtain ⟨_, _, h⟩ := Except.bind_eq_ok h
  obtain ⟨blocks, hb, h⟩ := Except.bind_eq_ok h
  obtain ⟨blocks₁, h₁, h⟩ := Except.bind_eq_ok h
  obtain ⟨blocks₂, h₂, h⟩ := Except.bind_eq_ok h
  obtain ⟨linked, hl, h⟩ := Except.bind_eq_ok h
  cases h
  have hd := hi.distinct
  have ht := tabled_number (ordered_perm hi) hd hb
  have hs := Stage.number hi hb
  have hs₁ := hs.next (fun _ hb _ => resolveAliases_aliased (hs.covers hi ht fun _ h => h) hb) h₁
  have hs₂ := hs₁.next (fun _ hb _ => resolveRoles_cast hb hd ht) h₂
  have hrules : blocks₂.flatMap (·.rules) = (blocks.flatMap (·.rules)).toArray.toList :=
    (hs₂.flatMap_rules fun _ h => h.toFaithful).trans (hs.flatMap_rules fun _ h => h.toFaithful).symm
  have haimed := hs₂.aimed hi ht hl
  rw [hrules] at haimed
  generalize (blocks.flatMap (·.rules)).toArray = table at ht hs₂ haimed
  have hnum : ∀ {grammar n id}, Numbered linked.flatten.toArray grammar n id ↔ Numbered table grammar n id :=
    numbered_aimed haimed
  refine ⟨?_, fun h h' => ht.unique (hnum.1 h) (hnum.1 h'), fun g hg rule hr => ?_, fun id rule hid => ?_,
    fun g hg => ?_, fun g hg => ?_⟩
  · rw [← ht.size]
    exact haimed.length_eq.symm
  · obtain ⟨id, hid⟩ := ht.declared g hg rule hr
    obtain ⟨_, hid', g', hg', declared, _, target, he, rfl, hcalls⟩ := getElem?_of_forall₂_left haimed hid
    obtain rfl := eq_of_name hd hg hg' (congrArg Rule.grammar he)
    refine ⟨id, target, hid', fun c hc => ?_⟩
    obtain ⟨grammar, n, hres, hn⟩ := hcalls c hc
    exact ⟨grammar, n, hres, hnum.2 hn⟩
  · obtain ⟨_, _, g, hg, declared, hmem, _, rfl, rfl, _⟩ := getElem?_of_forall₂_right haimed hid
    exact ⟨g, hg, declared, hmem, rfl, rfl⟩
  · obtain ⟨b, hbm, rfl, hcast⟩ := hs₂.block hi hg
    have hsome : ((blocks₂.map (·.grammar)).find? (·.name == b.decl.name)).isSome := by
      rw [List.find?_isSome]
      exact ⟨b.grammar, List.mem_map_of_mem hbm, by simp [hcast.name]⟩
    obtain ⟨g', hg'⟩ := Option.isSome_iff_exists.1 hsome
    have hname : g'.name = b.decl.name := by simpa using List.find?_some hg'
    obtain ⟨b', hbm', rfl⟩ := List.mem_map.1 (List.mem_of_find?_eq_some hg')
    have hcast' := hs₂.each b' hbm'
    have hsame := eq_of_name hd hcast'.decl hcast.decl (hcast'.name.symm.trans hname)
    simp only [hnum]
    exact ⟨b'.grammar, hg', hname, hsame ▸ hcast'.start, hsame ▸ hcast'.skip⟩
  · obtain ⟨b, hbm, rfl⟩ := List.mem_map.1 hg
    exact List.mem_map.2 ⟨b.decl, (hs₂.each b hbm).decl, (hs₂.each b hbm).name.symm⟩

/-- A registry in order links exactly if it is well-formed, and then to a domain that has its rules, in
which every call goes to the rule it names. -/
theorem Registry.link_iff_wellFormed {r : Registry V} (hi : r.Indexed) :
    ((∃ d, r.link = .ok d) ↔ r.WellFormed) ∧ ∀ d, r.link = .ok d → d.Realizes r :=
  ⟨⟨hi.wellFormed, hi.links⟩, fun _ => hi.realizes⟩

/-- Two grammars that refer to each other: one calls a rule of the other by an alias, the other one calls
back by a qualified name. -/
def Registry.mutual : Registry Unit :=
  Registry.empty.performAll [
    .add { name := "Lists", references := ["Items"], links := [("Item", "Items.Item")], start := some "List"
           rules := [.new "List" (.list (.rule "Item") (.char ','))] },
    .add { name := "Items", references := ["Lists"], start := some "Item"
           rules := [.new "Item" (.alt (.char 'x') (.seq (.char '(') (.rule "Lists.List")))] }]

theorem Registry.mutual_wellFormed : mutual.Indexed ∧ mutual.WellFormed := by
  have hi : mutual.Indexed := (indexed_empty.orderly_performAll _).indexed
  have hlink : ∃ d, mutual.link = .ok d := by
    cases h : mutual.link with
    | ok d => exact ⟨d, rfl⟩
    | error e =>
      have : (match mutual.link with | .ok _ => true | .error _ => false) = true := by decide +kernel
      rw [h] at this
      nomatch this
  exact ⟨hi, (link_iff_wellFormed hi).1.1 hlink⟩

end PegFront
