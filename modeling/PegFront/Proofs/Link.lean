import Mathlib.Data.List.Forall2
import PegFront.Peg.Link

/-!
# What linking guarantees

A registry that links gives a domain in which every call goes to a rule of the table that takes as many
arguments as the call passes, every action is bound, and the rules that play a role are there; a skip
rule has neither attributes nor a value (`Domain.Linked`). Linking changes nothing of a rule but its
pattern (`Rule.Redefines`), so that what the checks saw of the declared rules is true of the linked ones.
-/

namespace PegFront

variable {V : Type}

/-! ## Steps that can fail -/

namespace Except

variable {ε α β : Type}

theorem bind_eq_ok {x : Except ε α} {f : α → Except ε β} {b : β} (h : (x >>= f) = .ok b) :
    ∃ a, x = .ok a ∧ f a = .ok b := by
  cases x with
  | error e => nomatch h
  | ok a => exact ⟨a, rfl, h⟩

theorem exists_bind_eq_ok_iff {x : Except ε α} {f : α → Except ε β} :
    (∃ b, (x >>= f) = .ok b) ↔ ∃ a, x = .ok a ∧ ∃ b, f a = .ok b := by
  constructor
  · rintro ⟨b, h⟩
    obtain ⟨a, ha, hb⟩ := bind_eq_ok h
    exact ⟨a, ha, b, hb⟩
  · rintro ⟨a, rfl, b, hb⟩
    exact ⟨b, hb⟩

theorem mapM_eq_ok {f : α → Except ε β} {xs : List α} {ys : List β} (h : xs.mapM f = .ok ys) :
    List.Forall₂ (fun x y => f x = .ok y) xs ys := by
  induction xs generalizing ys with
  | nil =>
    rw [List.mapM_nil] at h
    cases h
    exact .nil
  | cons x xs ih =>
    rw [List.mapM_cons] at h
    obtain ⟨y, hy, h⟩ := bind_eq_ok h
    obtain ⟨ys', hys, h⟩ := bind_eq_ok h
    cases h
    exact .cons hy (ih hys)

theorem exists_mapM_eq_ok_iff {f : α → Except ε β} {xs : List α} :
    (∃ ys, xs.mapM f = .ok ys) ↔ ∀ x ∈ xs, ∃ y, f x = .ok y := by
  induction xs with
  | nil => simp [pure, Except.pure]
  | cons x xs ih =>
    rw [List.mapM_cons, List.forall_mem_cons, ← ih, exists_bind_eq_ok_iff]
    simp only [exists_bind_eq_ok_iff]
    constructor
    · rintro ⟨y, hy, ys, hys, _⟩
      exact ⟨⟨y, hy⟩, ys, hys⟩
    · rintro ⟨⟨y, hy⟩, ys, hys⟩
      exact ⟨y, hy, ys, hys, _, rfl⟩

/-- Lists that are gone through one after the other. -/
theorem mapM_mapM_eq_ok {γ : Type} {f : α → β → Except ε γ} {k : α → List β} {xs : List α} {zss : List (List γ)}
    (h : xs.mapM (fun x => (k x).mapM (f x)) = .ok zss) :
    List.Forall₂ (fun y z => ∃ x ∈ xs, y ∈ k x ∧ f x y = .ok z) (xs.flatMap k) zss.flatten := by
  rw [List.flatMap_def]
  refine List.rel_flatten (List.forall₂_map_left_iff.2 ?_)
  have hxs := (List.forall₂_and_left _ _).2 ⟨fun x hx => hx, mapM_eq_ok h⟩
  refine hxs.imp fun x zs ⟨hx, hzs⟩ => ?_
  have hys := (List.forall₂_and_left _ _).2 ⟨fun y hy => hy, mapM_eq_ok hzs⟩
  exact hys.imp fun y z ⟨hy, hz⟩ => ⟨x, hx, hy, hz⟩

theorem of_mem_mapM {f : α → Except ε β} {xs : List α} {ys : List β} (h : xs.mapM f = .ok ys) {y : β}
    (hy : y ∈ ys) : ∃ x ∈ xs, f x = .ok y := by
  have hf := mapM_eq_ok h
  clear h
  induction hf with
  | nil => nomatch hy
  | cons hx _ ih =>
    rcases List.mem_cons.1 hy with rfl | hy
    · exact ⟨_, List.mem_cons_self, hx⟩
    · obtain ⟨x, hx, hy⟩ := ih hy
      exact ⟨x, List.mem_cons_of_mem _ hx, hy⟩

end Except

/-! ## Tables that correspond entry by entry -/

section
variable {α β : Type} {R : α → β → Prop} {xs : Array α} {ys : Array β} {i : Nat}

theorem getElem?_of_forall₂_left (h : List.Forall₂ R xs.toList ys.toList) {x : α}
    (hx : xs[i]? = some x) : ∃ y, ys[i]? = some y ∧ R x y := by
  obtain ⟨hi, rfl⟩ := Array.getElem?_eq_some_iff.1 hx
  have hj : i < ys.size := Nat.lt_of_lt_of_eq hi h.length_eq
  exact ⟨ys[i], Array.getElem?_eq_getElem hj, h.get hi hj⟩

theorem getElem?_of_forall₂_right (h : List.Forall₂ R xs.toList ys.toList) {y : β}
    (hy : ys[i]? = some y) : ∃ x, xs[i]? = some x ∧ R x y := by
  obtain ⟨hj, rfl⟩ := Array.getElem?_eq_some_iff.1 hy
  have hi : i < xs.size := Nat.lt_of_lt_of_eq hj h.length_eq.symm
  exact ⟨xs[i], Array.getElem?_eq_getElem hi, h.get hi hj⟩

end

/-! ## Linked domains -/

/-- Every action in a pattern of the rule is bound, and every call goes to a rule of the table that
takes the number of arguments written at the call. -/
def Pattern.Linked (rules : Array (Rule V)) (rule : Rule V) : Pattern → Prop
  | .seq a b | .alt a b | .diff a b | .list a b => a.Linked rules rule ∧ b.Linked rules rule
  | .opt p | .many p | .many1 p | .expect p | .token p | .lookahead p | .notAhead p
  | .keywords p _ => p.Linked rules rule
  | .act action p => (∃ f, rule.action? action = some f) ∧ p.Linked rules rule
  | .call c => ∃ id callee, c.target = some id ∧ rules[id]? = some callee ∧ callee.arity = c.arity
  | _ => True

structure Domain.Linked (d : Domain V) : Prop where
  rules : ∀ (id : RuleId) rule, d.rules[id]? = some rule → rule.definition.Linked d.rules rule
  start : ∀ g ∈ d.grammars, ∀ id, g.start = some id → ∃ rule, d.rules[id]? = some rule
  skip : ∀ g ∈ d.grammars, ∀ id, g.skip = some id →
    ∃ rule, d.rules[id]? = some rule ∧ rule.arity = 0 ∧ rule.hasValue = false

/-- The same rule with another pattern. -/
def Rule.Redefines (r r' : Rule V) : Prop := ∃ definition, r' = { r with definition }

namespace Rule.Redefines

variable {r r' : Rule V}

theorem arity (h : r.Redefines r') : r'.arity = r.arity := by obtain ⟨_, rfl⟩ := h; rfl

theorem hasValue (h : r.Redefines r') : r'.hasValue = r.hasValue := by obtain ⟨_, rfl⟩ := h; rfl

/-- A pattern linked for a rule is linked for the rule redefined, in any table of redefined rules. -/
theorem linked {rules rules' : Array (Rule V)} (h : r.Redefines r')
    (hr : List.Forall₂ Rule.Redefines rules.toList rules'.toList) {p : Pattern}
    (hp : p.Linked rules r) : p.Linked rules' r' := by
  induction p with
  | seq _ _ ih₁ ih₂ | alt _ _ ih₁ ih₂ | diff _ _ ih₁ ih₂ | list _ _ ih₁ ih₂ =>
    exact ⟨ih₁ hp.1, ih₂ hp.2⟩
  | opt _ ih | many _ ih | many1 _ ih | expect _ ih | token _ ih | lookahead _ ih | notAhead _ ih
  | keywords _ _ ih => exact ih hp
  | act action p ih =>
    obtain ⟨f, hf⟩ := hp.1
    obtain ⟨_, rfl⟩ := h
    exact ⟨⟨f, hf⟩, ih hp.2⟩
  | call c =>
    obtain ⟨id, callee, ht, hc, ha⟩ := hp
    obtain ⟨callee', hc', hredef⟩ := getElem?_of_forall₂_left hr hc
    exact ⟨id, callee', ht, hc', hredef.arity.trans ha⟩
  | empty | one | text | keyword => trivial

end Rule.Redefines

namespace Link

/-! ## Numbers in range -/

/-- Own rules and aliases of the grammar are numbers below `n`. -/
structure InRange (n : Nat) (g : Grammar) : Prop where
  rules : ∀ p ∈ g.rules, p.2 < n
  links : ∀ p ∈ g.links, p.2 < n

theorem mem_of_lookup {α : Type} {ps : List (String × α)} {name : String} {a : α}
    (h : ps.lookup name = some a) : (name, a) ∈ ps := by
  obtain ⟨_, _, rfl, _⟩ := List.lookup_eq_some_iff.1 h
  simp

namespace InRange

variable {n : Nat} {g : Grammar} {name : String} {id : RuleId}

theorem ownRule (h : InRange n g) (hid : g.ownRule? name = some id) : id < n :=
  h.rules _ (mem_of_lookup hid)

theorem lookup (h : InRange n g) (hid : g.lookup? name = some id) : id < n := by
  rw [Grammar.lookup?, Option.orElse_eq_orElse, Option.orElse_eq_or, Option.or_eq_some_iff] at hid
  rcases hid with hid | ⟨_, hid⟩
  · exact h.ownRule hid
  · exact h.links _ (mem_of_lookup hid)

end InRange

theorem InRange.find {n : Nat} {grammars : List Grammar} (h : ∀ g ∈ grammars, InRange n g)
    {name rule : String} {g : Grammar} {id : RuleId} (hg : find? grammars name = some g)
    (hid : g.ownRule? rule = some id) : id < n :=
  (h g (List.mem_of_find?_eq_some hg)).ownRule hid

theorem number_inRange {next : Nat} {decls : List (GrammarDecl V)} {blocks : List (Block V)}
    (h : number next decls = .ok blocks) :
    ∀ b ∈ blocks, InRange (next + (blocks.flatMap (·.rules)).length) b.grammar := by
  induction decls generalizing next blocks with
  | nil => cases h; simp
  | cons g gs ih =>
    simp only [number] at h
    split at h
    · nomatch h
    obtain ⟨rest, hrest, h⟩ := Except.bind_eq_ok h
    cases h
    intro b hb
    simp only [List.flatMap_cons, List.length_append, List.length_map]
    rcases List.mem_cons.1 hb with rfl | hb
    · refine ⟨fun p hp => ?_, fun p hp => nomatch hp⟩
      have := List.snd_lt_of_mem_zipIdx hp
      rw [List.length_map] at this
      exact Nat.lt_of_lt_of_le this (by omega)
    · have := ih hrest b hb
      simp only [List.length_map] at this
      rwa [Nat.add_assoc] at this

/-- Numbering changes nothing of a rule but its grammar. -/
theorem mem_number {next : Nat} {decls : List (GrammarDecl V)} {blocks : List (Block V)}
    (h : number next decls = .ok blocks) {rule : Rule V} (hr : rule ∈ blocks.flatMap (·.rules)) :
    ∃ g ∈ decls, ∃ declared ∈ g.rules, rule = { declared with grammar := g.name } := by
  induction decls generalizing next blocks with
  | nil => cases h; nomatch hr
  | cons g gs ih =>
    simp only [number] at h
    split at h
    · nomatch h
    obtain ⟨rest, hrest, h⟩ := Except.bind_eq_ok h
    cases h
    simp only [List.flatMap_cons, List.mem_append, List.mem_map] at hr
    rcases hr with ⟨declared, hd, rfl⟩ | hr
    · exact ⟨g, List.mem_cons_self, declared, hd, rfl⟩
    · obtain ⟨g', hg', hrule⟩ := ih hrest hr
      exact ⟨g', List.mem_cons_of_mem _ hg', hrule⟩

theorem resolveAlias_lt {n : Nat} {grammars : List Grammar} {owner target : String} {id : RuleId}
    (hg : ∀ g ∈ grammars, InRange n g) (h : resolveAlias grammars owner target = .ok id) : id < n := by
  unfold resolveAlias at h
  split at h
  · nomatch h
  split at h
  · nomatch h
  next hf =>
  split at h
  · next hid => cases h; exact InRange.find hg hf hid
  · nomatch h

theorem resolveAliases_spec {n : Nat} {grammars : List Grammar} {b b' : Block V}
    (hg : ∀ g ∈ grammars, InRange n g) (hb : InRange n b.grammar)
    (h : resolveAliases grammars b = .ok b') : b'.rules = b.rules ∧ InRange n b'.grammar := by
  obtain ⟨links, hl, h⟩ := Except.bind_eq_ok h
  cases h
  refine ⟨rfl, hb.rules, fun p hp => ?_⟩
  obtain ⟨_, _, hp⟩ := Except.of_mem_mapM hl hp
  obtain ⟨id, hid, hp⟩ := Except.bind_eq_ok hp
  cases hp
  exact resolveAlias_lt hg hid

/-- The rules of a grammar and those that play a role in it are in the table. -/
structure Ready (table : Array (Rule V)) (g : Grammar) : Prop extends InRange table.size g where
  start : ∀ id, g.start = some id → id < table.size
  skip : ∀ id, g.skip = some id →
    ∃ rule, table[id]? = some rule ∧ rule.arity = 0 ∧ rule.hasValue = false

theorem resolveRole_lt {n : Nat} {g : Grammar} {role : String} {name : Option String}
    {found : Option RuleId} (hg : InRange n g) (h : resolveRole g role name = .ok found) :
    ∀ id, found = some id → id < n := by
  rintro id rfl
  cases name with
  | none => nomatch h
  | some name =>
    simp only [resolveRole] at h
    split at h
    · next hid => cases h; exact hg.lookup hid
    · nomatch h

theorem checkSkipRule_spec {rules : Array (Rule V)} {g : Grammar} {id : RuleId} {rule : Rule V}
    (h : checkSkipRule rules g = .ok ()) (hid : g.skip = some id) (hr : rules[id]? = some rule) :
    rule.arity = 0 ∧ rule.hasValue = false := by
  simp only [checkSkipRule, hid, Option.bind_some, hr] at h
  split at h
  · nomatch h
  · next hv => simpa using hv

theorem resolveRoles_spec {rules : Array (Rule V)} {b b' : Block V} (hb : InRange rules.size b.grammar)
    (h : resolveRoles rules b = .ok b') : b'.rules = b.rules ∧ Ready rules b'.grammar := by
  obtain ⟨start, hstart, h⟩ := Except.bind_eq_ok h
  obtain ⟨skip, hskip, h⟩ := Except.bind_eq_ok h
  obtain ⟨_, hcheck, h⟩ := Except.bind_eq_ok h
  cases h
  refine ⟨rfl, ⟨hb.rules, hb.links⟩, resolveRole_lt hb hstart, fun id hid => ?_⟩
  have hlt := resolveRole_lt hb hskip id hid
  have hr : rules[id]? = some rules[id] := Array.getElem?_eq_getElem hlt
  exact ⟨rules[id], hr, checkSkipRule_spec hcheck hid hr⟩

/-- A stage of linking that keeps something of every grammar keeps it of all of them. -/
theorem mapM_blocks {γ : Type} {k : Block V → γ} {f : Block V → Except ParseError (Block V)} {P : Block V → Prop}
    {blocks blocks' : List (Block V)} (hf : ∀ b ∈ blocks, ∀ b', f b = .ok b' → k b' = k b ∧ P b')
    (h : blocks.mapM f = .ok blocks') : blocks'.map k = blocks.map k ∧ ∀ b ∈ blocks', P b := by
  constructor
  · have hm := Except.mapM_eq_ok h
    clear h
    induction hm with
    | nil => rfl
    | cons hb _ ih =>
      rw [List.map_cons, List.map_cons, (hf _ List.mem_cons_self _ hb).1,
        ih fun b hb => hf b (List.mem_cons_of_mem _ hb)]
  · intro b hb
    obtain ⟨b₀, hb₀, hb⟩ := Except.of_mem_mapM h hb
    exact (hf b₀ hb₀ b hb).2

/-! ## Calls and patterns -/

theorem resolve?_lt {n : Nat} {grammars : List Grammar} {g : Grammar} {name : String} {id : RuleId}
    (hgs : ∀ g ∈ grammars, InRange n g) (hg : InRange n g) (h : resolve? grammars g name = some id) :
    id < n := by
  rw [resolve?, Option.orElse_eq_orElse, Option.orElse_eq_or, Option.or_eq_some_iff] at h
  rcases h with h | ⟨_, h⟩
  · exact hg.lookup h
  · obtain ⟨⟨grammar, rule⟩, _, h⟩ := Option.bind_eq_some_iff.1 h
    obtain ⟨_, _, h⟩ := Option.bind_eq_some_iff.1 h
    obtain ⟨g', hg', hid⟩ := Option.bind_eq_some_iff.1 h
    exact InRange.find hgs hg' hid

theorem linkCall_spec {grammars : List Grammar} {rules : Array (Rule V)} {g : Grammar}
    {caller : String} {c c' : Call} (hgs : ∀ g ∈ grammars, InRange rules.size g)
    (hg : InRange rules.size g) (h : linkCall grammars rules g caller c = .ok c') :
    ∃ id callee, c'.target = some id ∧ rules[id]? = some callee ∧ callee.arity = c'.arity := by
  unfold linkCall at h
  split at h
  · nomatch h
  next id hid =>
  have hlt := resolve?_lt hgs hg hid
  have hr : rules[id]? = some rules[id] := Array.getElem?_eq_getElem hlt
  simp only [hr] at h
  split at h
  · nomatch h
  · next ha =>
    cases h
    have ha : c.arity = rules[id].arity := by simpa using ha
    exact ⟨id, rules[id], rfl, hr, ha.symm⟩

/-- Replacing calls by linked ones in a pattern without faults gives a linked pattern. -/
theorem mapCallsM_linked {rules : Array (Rule V)} {rule : Rule V}
    {f : Call → Except ParseError Call} (hf : ∀ c c', f c = .ok c' →
      ∃ id callee, c'.target = some id ∧ rules[id]? = some callee ∧ callee.arity = c'.arity)
    {p p' : Pattern} (hn : ∀ n ∈ p.nodes, nodeFault? rule n = none) (h : p.mapCallsM f = .ok p') :
    p'.Linked rules rule := by
  induction p generalizing p' with
  | seq a b ih₁ ih₂ | alt a b ih₁ ih₂ | diff a b ih₁ ih₂ | list a b ih₁ ih₂ =>
    simp only [Pattern.nodes, List.mem_cons, List.mem_append] at hn
    obtain ⟨a', ha, h⟩ := Except.bind_eq_ok h
    obtain ⟨b', hb, h⟩ := Except.bind_eq_ok h
    cases h
    exact ⟨ih₁ (fun n h => hn n (.inr (.inl h))) ha, ih₂ (fun n h => hn n (.inr (.inr h))) hb⟩
  | opt a ih | many a ih | many1 a ih | expect a ih | token a ih | lookahead a ih | notAhead a ih
  | keywords a _ ih =>
    simp only [Pattern.nodes, List.mem_cons] at hn
    obtain ⟨a', ha, h⟩ := Except.bind_eq_ok h
    cases h
    have := ih (fun n h => hn n (.inr h)) ha
    exact this
  | act action a ih =>
    simp only [Pattern.nodes, List.mem_cons] at hn
    obtain ⟨a', ha, h⟩ := Except.bind_eq_ok h
    cases h
    refine ⟨?_, ih (fun n h => hn n (.inr h)) ha⟩
    have := hn _ (.inl rfl)
    simp only [nodeFault?] at this
    split at this
    · next hs => exact Option.isSome_iff_exists.1 hs
    · nomatch this
  | call c =>
    obtain ⟨c', hc, h⟩ := Except.bind_eq_ok h
    cases h
    exact hf c c' hc
  | empty | one | text | keyword => cases h; trivial

theorem linkRule_spec {grammars : List Grammar} {rules : Array (Rule V)} {g : Grammar}
    {rule rule' : Rule V} (hgs : ∀ g ∈ grammars, InRange rules.size g) (hg : InRange rules.size g)
    (h : linkRule grammars rules g rule = .ok rule') :
    rule.Redefines rule' ∧ rule'.definition.Linked rules rule := by
  obtain ⟨_, _, h⟩ := Except.bind_eq_ok h
  obtain ⟨_, hn, h⟩ := Except.bind_eq_ok h
  obtain ⟨definition, hd, h⟩ := Except.bind_eq_ok h
  cases h
  refine ⟨⟨definition, rfl⟩, mapCallsM_linked (fun _ _ => linkCall_spec hgs hg) ?_ hd⟩
  unfold checkNodes at hn
  split at hn
  · nomatch hn
  · next hf => exact List.findSome?_eq_none_iff.1 hf

end Link

/-! ## Domains -/

open Link in
/-- What linking makes of a registry: the rules of its grammars in the order of the grammars, each with
its pattern linked, and grammars whose roles are played by rules of the table. -/
theorem Registry.link_spec {r : Registry V} {d : Domain V} (h : r.link = .ok d) :
    ∃ (blocks : List (Block V)) (rules : Array (Rule V)),
      number 0 ((dependencyOrder r.grammars.length r.referencesOf).filterMap (r.grammars[·]?)) =
        .ok blocks ∧
      rules = (blocks.flatMap (·.rules)).toArray ∧
      List.Forall₂ (fun rule rule' => rule.Redefines rule' ∧ rule'.definition.Linked rules rule)
        rules.toList d.rules.toList ∧
      ∀ g ∈ d.grammars, Ready rules g := by
  obtain ⟨_, _, h⟩ := Except.bind_eq_ok h
  obtain ⟨blocks, hb, h⟩ := Except.bind_eq_ok h
  obtain ⟨blocks₁, h₁, h⟩ := Except.bind_eq_ok h
  obtain ⟨blocks₂, h₂, h⟩ := Except.bind_eq_ok h
  obtain ⟨linked, hl, h⟩ := Except.bind_eq_ok h
  cases h
  obtain ⟨rules, hrules⟩ : ∃ rules, rules = (blocks.flatMap (·.rules)).toArray := ⟨_, rfl⟩
  rw [← hrules] at h₂ hl
  have hn : ∀ b ∈ blocks, InRange rules.size b.grammar := by
    have := number_inRange hb
    rwa [Nat.zero_add, ← List.size_toArray, ← hrules] at this
  obtain ⟨hr₁, hn₁⟩ := mapM_blocks (k := (·.rules)) (P := fun b => InRange rules.size b.grammar)
    (fun b hb b' => resolveAliases_spec (by simpa using hn) (hn b hb)) h₁
  obtain ⟨hr₂, hn₂⟩ := mapM_blocks (k := (·.rules)) (P := fun b => Ready rules b.grammar)
    (fun b hb b' => resolveRoles_spec (hn₁ b hb)) h₂
  have hg : ∀ g ∈ blocks₂.map (·.grammar), Ready rules g := by simpa using hn₂
  refine ⟨blocks, rules, hb, hrules, ?_, hg⟩
  have htable : rules.toList = blocks₂.flatMap (·.rules) := by
    rw [hrules, List.flatMap_def, List.flatMap_def, ← hr₁, ← hr₂]
  rw [htable]
  refine (Except.mapM_mapM_eq_ok hl).imp fun rule rule' ⟨b, hb, _, hrule⟩ => ?_
  exact linkRule_spec (fun g hg' => (hg g hg').toInRange) (hn₂ b hb).toInRange hrule

/-- Every rule of the domain of a registry is a rule of one of its grammars with its pattern linked. -/
theorem Registry.declared {r : Registry V} {d : Domain V} (h : r.link = .ok d) {id : RuleId} {rule : Rule V}
    (hid : d.rules[id]? = some rule) :
    ∃ g ∈ r.grammars, ∃ declared ∈ g.rules, ∃ definition,
      rule = { declared with grammar := g.name, definition } := by
  obtain ⟨blocks, rules, hb, hrules, hf, _⟩ := r.link_spec h
  obtain ⟨numbered, hn, ⟨definition, rfl⟩, _⟩ := getElem?_of_forall₂_right hf hid
  rw [hrules] at hn
  obtain ⟨g, hg, declared, hd, rfl⟩ := Link.mem_number hb (List.mem_of_getElem? (by simpa using hn))
  obtain ⟨i, _, hi⟩ := List.mem_filterMap.1 hg
  exact ⟨g, List.mem_of_getElem? hi, declared, hd, definition, rfl⟩

theorem Registry.linked {r : Registry V} {d : Domain V} (h : r.link = .ok d) : d.Linked := by
  obtain ⟨blocks, rules, -, -, hf, hg⟩ := r.link_spec h
  have hredef : List.Forall₂ Rule.Redefines rules.toList d.rules.toList := hf.imp fun _ _ h => h.1
  refine ⟨fun id rule' hid => ?_, fun g hmem id hid => ?_, fun g hmem id hid => ?_⟩
  · obtain ⟨rule, _, hrule, hp⟩ := getElem?_of_forall₂_right hf hid
    exact hrule.linked hredef hp
  · have hid := (hg g hmem).start id hid
    obtain ⟨rule', hr', _⟩ := getElem?_of_forall₂_left hredef (Array.getElem?_eq_getElem hid)
    exact ⟨rule', hr'⟩
  · obtain ⟨rule, hr, ha, hv⟩ := (hg g hmem).skip id hid
    obtain ⟨rule', hr', hrule⟩ := getElem?_of_forall₂_left hredef hr
    exact ⟨rule', hr', hrule.arity.trans ha, hrule.hasValue.trans hv⟩

end PegFront
