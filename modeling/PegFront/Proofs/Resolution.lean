import Mathlib
import PegFront.Proofs.Dependencies
import PegFront.Proofs.Link
import PegFront.Proofs.Registrations

/-!
# What names mean

A name in a grammar stands for a rule of a registered grammar. `Registry.Finds` and `Registry.Resolves` say
which, on the declarations alone and by the names of grammar and rule; neither mentions numbers or the
order of the grammars. Linking gives each rule a number, and each of its stages finds the number of a
name exactly when the name stands for a rule, and then the number of that rule.
-/

namespace PegFront

variable {V : Type}

/-! ## Qualified names -/

/-- The name is that of a grammar, a dot and that of a rule, which has no dot. -/
def Qualifies (name grammar rule : String) : Prop := name = grammar ++ "." ++ rule ∧ '.' ∉ rule.toList

theorem span_ne_dot {cs : List Char} (front back : List Char) (h : '.' ∉ front) (hcs : cs = front ++ '.' :: back) :
    cs.span (· != '.') = (front, '.' :: back) := by
  subst hcs
  rw [List.span_eq_takeWhile_dropWhile]
  have hfront : ∀ c ∈ front, (c != '.') = true := fun c hc => by
    simpa using fun he : c = '.' => h (he ▸ hc)
  rw [List.takeWhile_append_of_pos hfront, List.dropWhile_append_of_pos hfront]
  simp

theorem splitQualified?_eq_some_iff {name grammar rule : String} :
    splitQualified? name = some (grammar, rule) ↔ Qualifies name grammar rule := by
  constructor
  · intro h
    unfold splitQualified? at h
    rw [List.span_eq_takeWhile_dropWhile] at h
    have hcut := List.takeWhile_append_dropWhile (p := (· != '.')) (l := name.toList.reverse)
    have hfront : ∀ c ∈ name.toList.reverse.takeWhile (· != '.'), c ≠ '.' := fun c hc => by
      simpa using List.mem_takeWhile_imp hc
    have hdot := List.head?_dropWhile_not (· != '.') name.toList.reverse
    generalize name.toList.reverse.takeWhile (· != '.') = front at h hcut hfront
    generalize name.toList.reverse.dropWhile (· != '.') = rest at h hcut hdot
    cases rest with
    | nil => nomatch h
    | cons c back =>
      have hc : c = '.' := by simpa using hdot
      simp only [Option.some.injEq, Prod.mk.injEq] at h
      obtain ⟨rfl, rfl⟩ := h
      refine ⟨?_, ?_⟩
      · apply String.toList_injective
        have := congrArg List.reverse hcut
        rw [List.reverse_reverse] at this
        rw [← this, hc]
        simp
      · simpa using fun hm => hfront _ hm rfl
  · rintro ⟨rfl, hrule⟩
    unfold splitQualified?
    rw [span_ne_dot rule.toList.reverse grammar.toList.reverse (by simpa using hrule)
      (by simp)]
    simp

theorem Qualifies.unique {name grammar grammar' rule rule' : String} (h : Qualifies name grammar rule)
    (h' : Qualifies name grammar' rule') : grammar = grammar' ∧ rule = rule' := by
  have := (splitQualified?_eq_some_iff.2 h).symm.trans (splitQualified?_eq_some_iff.2 h')
  simpa using this

/-! ## Rules by name -/

namespace Registry

/-- The registered grammar of that name has a rule of that name. -/
def Declares (r : Registry V) (grammar name : String) (rule : Rule V) : Prop :=
  ∃ g ∈ r.grammars, g.name = grammar ∧ rule ∈ g.rules ∧ rule.name = name

/-- What a name stands for in a grammar without being qualified: an own rule, or else what the first
alias of that name leads to. -/
inductive Finds (r : Registry V) (g : GrammarDecl V) (name : String) : String → String → Prop
  | own {rule} (hr : rule ∈ g.rules) (hn : rule.name = name) : Finds r g name g.name name
  | linked {target grammar n rule} (hown : ∀ rule ∈ g.rules, rule.name ≠ name)
      (hl : g.links.lookup name = some target) (hq : Qualifies target grammar n)
      (hd : r.Declares grammar n rule) : Finds r g name grammar n

/-- What a call names: what the name stands for in the grammar, or else a rule by its qualified name, of
the grammar itself or of one it refers to. -/
inductive Resolves (r : Registry V) (g : GrammarDecl V) (name : String) : String → String → Prop
  | found {grammar n} (h : r.Finds g name grammar n) : Resolves r g name grammar n
  | qualified {grammar n rule} (hown : ∀ rule ∈ g.rules, rule.name ≠ name)
      (hl : g.links.lookup name = none) (hv : grammar = g.name ∨ grammar ∈ g.references)
      (hq : Qualifies name grammar n) (hd : r.Declares grammar n rule) : Resolves r g name grammar n

variable {r : Registry V} {g : GrammarDecl V} {name grammar grammar' n n' : String}

theorem Finds.unique (h : r.Finds g name grammar n) (h' : r.Finds g name grammar' n') :
    grammar = grammar' ∧ n = n' := by
  cases h with
  | own hr hn =>
    cases h' with
    | own => exact ⟨rfl, rfl⟩
    | linked hown => exact absurd hn (hown _ hr)
  | linked hown hl hq _ =>
    cases h' with
    | own hr hn => exact absurd hn (hown _ hr)
    | linked _ hl' hq' _ =>
      rw [hl, Option.some.injEq] at hl'
      subst hl'
      exact hq.unique hq'

theorem Finds.declares (h : r.Finds g name grammar n) (hg : g ∈ r.grammars) : ∃ rule, r.Declares grammar n rule := by
  cases h with
  | own hr hn => exact ⟨_, g, hg, rfl, hr, hn⟩
  | linked _ _ _ hd => exact ⟨_, hd⟩

theorem Finds.not_qualified (h : r.Finds g name grammar n) (hown : ∀ rule ∈ g.rules, rule.name ≠ name)
    (hl : g.links.lookup name = none) : False := by
  cases h with
  | own hr hn => exact hown _ hr hn
  | linked _ hl' => rw [hl] at hl'; nomatch hl'

theorem Resolves.unique (h : r.Resolves g name grammar n) (h' : r.Resolves g name grammar' n') :
    grammar = grammar' ∧ n = n' := by
  cases h with
  | found hf =>
    cases h' with
    | found hf' => exact hf.unique hf'
    | qualified hown hl => exact (hf.not_qualified hown hl).elim
  | qualified hown hl _ hq _ =>
    cases h' with
    | found hf' => exact (hf'.not_qualified hown hl).elim
    | qualified _ _ _ hq' _ => exact hq.unique hq'

theorem Resolves.declares (h : r.Resolves g name grammar n) (hg : g ∈ r.grammars) :
    ∃ rule, r.Declares grammar n rule := by
  cases h with
  | found hf => exact hf.declares hg
  | qualified _ _ _ _ hd => exact ⟨_, hd⟩

end Registry

/-! ## Rules by number -/

/-- The rule with that number is the one of that name in the grammar of that name. -/
def Numbered (table : Array (Rule V)) (grammar name : String) (id : RuleId) : Prop :=
  ∃ rule, table[id]? = some rule ∧ rule.grammar = grammar ∧ rule.name = name

/-- The table holds every declared rule once. -/
structure Tabled (r : Registry V) (table : Array (Rule V)) : Prop where
  size : table.size = (r.grammars.map (·.rules.length)).sum
  declared : ∀ g ∈ r.grammars, ∀ rule ∈ g.rules, ∃ id : RuleId, table[id]? = some { rule with grammar := g.name }
  entry : ∀ (id : RuleId) rule, table[id]? = some rule →
    ∃ g ∈ r.grammars, ∃ declared ∈ g.rules, rule = { declared with grammar := g.name }
  unique : ∀ {grammar name id id'}, Numbered table grammar name id → Numbered table grammar name id' → id = id'

/-- The number of a declared rule is that of the rule itself. -/
theorem Tabled.getElem?_of_numbered {r : Registry V} {table : Array (Rule V)} (ht : Tabled r table) {rule : Rule V}
    {grammar n : String} {id : RuleId}
    (hn : Numbered table grammar n id) (hd : r.Declares grammar n rule) :
    table[id]? = some { rule with grammar := grammar } := by
  obtain ⟨g, hg, rfl, hr, rfl⟩ := hd
  obtain ⟨id', hid'⟩ := ht.declared g hg rule hr
  rwa [ht.unique hn ⟨_, hid', rfl, rfl⟩]

namespace Link

theorem firstRepeated?_eq_none_iff {names seen : List String} :
    firstRepeated? names seen = none ↔ names.Nodup ∧ ∀ n ∈ names, n ∉ seen := by
  induction names generalizing seen with
  | nil => simp [firstRepeated?]
  | cons n names ih =>
    simp only [firstRepeated?, List.nodup_cons, List.forall_mem_cons]
    split
    · next h => simp_all
    · next h =>
      simp only [List.contains_eq_mem, decide_eq_true_eq] at h
      rw [ih]
      simp only [List.mem_cons, not_or]
      grind

theorem number_cons_iff {next : Nat} {g : GrammarDecl V} {gs : List (GrammarDecl V)} {blocks : List (Block V)} :
    number next (g :: gs) = .ok blocks ↔ (g.rules.map (·.name)).Nodup ∧
      ∃ rest, number (next + g.rules.length) gs = .ok rest ∧
        blocks = ⟨g, { name := g.name, references := g.references, rules := (g.rules.map (·.name)).zipIdx next },
          g.rules.map fun rule => { rule with grammar := g.name }⟩ :: rest := by
  have hnodup : firstRepeated? (g.rules.map (·.name)) [] = none ↔ (g.rules.map (·.name)).Nodup := by
    simp [firstRepeated?_eq_none_iff]
  simp only [number]
  split
  · next h =>
    rw [← hnodup, h]
    simp
  · next h =>
    rw [← hnodup, h, List.length_map]
    cases number (next + g.rules.length) gs with
    | error e => simp [bind, Except.bind]
    | ok rest => simp [bind, Except.bind, pure, Except.pure, eq_comm]

theorem exists_number_iff (next : Nat) {gs : List (GrammarDecl V)} :
    (∃ blocks, number next gs = .ok blocks) ↔ ∀ g ∈ gs, (g.rules.map (·.name)).Nodup := by
  induction gs generalizing next with
  | nil => simp [number]
  | cons g gs ih =>
    simp only [number_cons_iff, List.forall_mem_cons, ← ih (next + g.rules.length)]
    grind

/-- The numbered grammar goes by the names of the declared one and has its rules. -/
structure Block.Faithful (b : Block V) : Prop where
  name : b.grammar.name = b.decl.name
  references : b.grammar.references = b.decl.references
  rules : b.rules = b.decl.rules.map fun rule => { rule with grammar := b.decl.name }

theorem number_decls {next : Nat} {gs : List (GrammarDecl V)} {blocks : List (Block V)}
    (h : number next gs = .ok blocks) : blocks.map (·.decl) = gs ∧ ∀ b ∈ blocks, b.Faithful := by
  induction gs generalizing next blocks with
  | nil => cases h; simp
  | cons g gs ih =>
    obtain ⟨_, rest, hrest, rfl⟩ := number_cons_iff.1 h
    obtain ⟨hdecls, hfaithful⟩ := ih hrest
    exact ⟨by rw [List.map_cons, hdecls], List.forall_mem_cons.2 ⟨⟨rfl, rfl, rfl⟩, hfaithful⟩⟩

theorem lookup_zipIdx {names : List String} (hd : names.Nodup) {next : Nat} {name : String} {id : Nat} :
    (names.zipIdx next).lookup name = some id ↔ ∃ k, id = next + k ∧ names[k]? = some name := by
  induction names generalizing next with
  | nil => simp
  | cons n names ih =>
    rw [List.nodup_cons] at hd
    rw [List.zipIdx_cons, List.lookup_cons]
    by_cases hn : name = n
    · subst hn
      have hfirst : ∀ k, (name :: names)[k]? = some name → k = 0 := by
        rintro (_ | k) hk
        · rfl
        · exact absurd (List.mem_of_getElem? (l := names) (by simpa using hk)) hd.1
      simp only [BEq.rfl]
      constructor
      · rintro ⟨⟩
        exact ⟨0, rfl, rfl⟩
      · rintro ⟨k, rfl, hk⟩
        simp [hfirst k hk]
    · have hne : (name == n) = false := by simpa using hn
      simp only [hne, ih hd.2]
      constructor
      · rintro ⟨k, rfl, hk⟩
        exact ⟨k + 1, by omega, hk⟩
      · rintro ⟨_ | k, rfl, hk⟩
        · exact absurd (by simpa using hk) (Ne.symm hn)
        · exact ⟨k, by omega, hk⟩

section
variable {α : Type} {P : α → Prop} {xs ys : List α} {next id : Nat}

/-- Something that stands only in the first of two lists. -/
theorem exists_getElem?_left (h : ∀ y ∈ ys, ¬P y) :
    (∃ k, id = next + k ∧ ∃ x, (xs ++ ys)[k]? = some x ∧ P x) ↔ ∃ k, id = next + k ∧ ∃ x, xs[k]? = some x ∧ P x := by
  refine exists_congr fun k => and_congr_right fun _ => exists_congr fun x => and_congr_left fun hx => ?_
  rw [List.getElem?_append]
  split
  · exact Iff.rfl
  · next hk =>
    rw [List.getElem?_eq_none (Nat.le_of_not_lt hk)]
    exact ⟨fun hy => absurd hx (h x (List.mem_of_getElem? hy)), nofun⟩

/-- Something that stands only in the second of two lists. -/
theorem exists_getElem?_right (h : ∀ x ∈ xs, ¬P x) :
    (∃ k, id = next + k ∧ ∃ x, (xs ++ ys)[k]? = some x ∧ P x) ↔
      ∃ k, id = next + xs.length + k ∧ ∃ x, ys[k]? = some x ∧ P x := by
  constructor
  · rintro ⟨k, rfl, x, hx, hp⟩
    rw [List.getElem?_append] at hx
    split at hx
    · exact absurd hp (h x (List.mem_of_getElem? hx))
    · next hk => exact ⟨k - xs.length, by omega, x, hx, hp⟩
  · rintro ⟨k, rfl, x, hx, hp⟩
    refine ⟨xs.length + k, by omega, x, ?_, hp⟩
    rwa [List.getElem?_append_right (by omega), Nat.add_sub_cancel_left]

end

/-- The own rules of a grammar have the numbers at which they stand among all rules. -/
theorem number_ownRule {next : Nat} {gs : List (GrammarDecl V)} {blocks : List (Block V)}
    (h : number next gs = .ok blocks) (hd : (gs.map (·.name)).Nodup) {b : Block V} (hb : b ∈ blocks)
    {name : String} {id : RuleId} :
    b.grammar.ownRule? name = some id ↔ ∃ k, id = next + k ∧
      ∃ rule, (blocks.flatMap (·.rules))[k]? = some rule ∧ rule.grammar = b.grammar.name ∧ rule.name = name := by
  induction gs generalizing next blocks with
  | nil => cases h; nomatch hb
  | cons g gs ih =>
    rw [List.map_cons, List.nodup_cons] at hd
    obtain ⟨hnodup, rest, hrest, rfl⟩ := number_cons_iff.1 h
    rw [List.flatMap_cons]
    -- grammars later on have other names, so a rule is looked for on one side only
    rcases List.mem_cons.1 hb with rfl | hb
    · rw [exists_getElem?_left, Grammar.ownRule?, lookup_zipIdx hnodup]
      · refine exists_congr fun k => and_congr_right fun _ => ?_
        simp only [List.getElem?_map, Option.map_eq_some_iff]
        constructor
        · rintro ⟨rule, hr, hn⟩
          exact ⟨_, ⟨rule, hr, rfl⟩, rfl, hn⟩
        · rintro ⟨_, ⟨rule, hr, rfl⟩, _, hn⟩
          exact ⟨rule, hr, hn⟩
      · rintro rule hr ⟨hg, _⟩
        obtain ⟨g', hg', _, _, rfl⟩ := mem_number hrest hr
        exact hd.1 (List.mem_map.2 ⟨g', hg', hg⟩)
    · rw [exists_getElem?_right, List.length_map, ih hrest hd.2 hb]
      rintro rule hr ⟨hg, _⟩
      obtain ⟨_, _, rfl⟩ := List.mem_map.1 hr
      obtain ⟨hdecls, hfaithful⟩ := number_decls hrest
      refine hd.1 (List.mem_map.2 ⟨b.decl, hdecls ▸ List.mem_map_of_mem hb, ?_⟩)
      exact ((hfaithful b hb).name.symm.trans hg.symm)

/-! ## Numbered grammars -/

/-- A numbered grammar of the registry, whose own rules have their numbers in the table. -/
structure Block.Placed (r : Registry V) (table : Array (Rule V)) (b : Block V) : Prop extends b.Faithful where
  decl : b.decl ∈ r.grammars
  own : ∀ name id, b.grammar.ownRule? name = some id ↔ Numbered table b.decl.name name id

section
variable {r : Registry V} {gs : List (GrammarDecl V)} {blocks : List (Block V)}

theorem numbered_ownRule (h : number 0 gs = .ok blocks) (hd : (gs.map (·.name)).Nodup) {b : Block V}
    (hb : b ∈ blocks) {name : String} {id : RuleId} :
    b.grammar.ownRule? name = some id ↔
      Numbered (blocks.flatMap (·.rules)).toArray b.decl.name name id := by
  rw [number_ownRule h hd hb, ← ((number_decls h).2 b hb).name]
  simp [Numbered]

theorem mem_of_numbered (h : number 0 gs = .ok blocks) {grammar name : String} {id : RuleId}
    (hn : Numbered (blocks.flatMap (·.rules)).toArray grammar name id) :
    ∃ b ∈ blocks, b.decl.name = grammar := by
  obtain ⟨rule, hr, rfl, _⟩ := hn
  obtain ⟨b, hb, hr⟩ := List.mem_flatMap.1 (List.mem_of_getElem? (by simpa using hr))
  rw [((number_decls h).2 b hb).rules] at hr
  obtain ⟨_, _, rfl⟩ := List.mem_map.1 hr
  exact ⟨b, hb, rfl⟩

/-- Numbering the grammars of a registry in any order gives a table of its rules. -/
theorem tabled_number (hp : gs.Perm r.grammars) (hd : r.names.Nodup) (h : number 0 gs = .ok blocks) :
    Tabled r (blocks.flatMap (·.rules)).toArray := by
  obtain ⟨hdecls, hfaithful⟩ := number_decls h
  have hgs : (gs.map (·.name)).Nodup := (hp.map _).nodup_iff.2 hd
  refine ⟨?_, fun g hg rule hr => ?_, fun id rule hid => ?_, fun hn hn' => ?_⟩
  · have hlen : blocks.map (fun b => b.rules.length) = gs.map (·.rules.length) := by
      rw [← hdecls, List.map_map]
      exact List.map_congr_left fun b hb => by simp [(hfaithful b hb).rules]
    rw [List.size_toArray, List.length_flatMap, hlen]
    exact (hp.map _).sum_nat
  · obtain ⟨b, hb, rfl⟩ := List.mem_map.1 (hdecls ▸ hp.mem_iff.2 hg)
    have hmem : { rule with grammar := b.decl.name } ∈ blocks.flatMap (·.rules) := by
      refine List.mem_flatMap.2 ⟨b, hb, ?_⟩
      rw [(hfaithful b hb).rules]
      exact List.mem_map_of_mem hr
    simpa using List.getElem?_of_mem hmem
  · obtain ⟨g, hg, rule, hr, he⟩ := mem_number h (List.mem_of_getElem? (by simpa using hid))
    exact ⟨g, hp.mem_iff.1 hg, rule, hr, he⟩
  · obtain ⟨b, hb, rfl⟩ := mem_of_numbered h hn
    have ho := (numbered_ownRule h hgs hb).2 hn
    have ho' := (numbered_ownRule h hgs hb).2 hn'
    exact Option.some.inj (ho.symm.trans ho')

theorem placed_number (hp : gs.Perm r.grammars) (hd : r.names.Nodup) (h : number 0 gs = .ok blocks) :
    ∀ b ∈ blocks, b.Placed r (blocks.flatMap (·.rules)).toArray := by
  obtain ⟨hdecls, hfaithful⟩ := number_decls h
  intro b hb
  refine ⟨hfaithful b hb, hp.mem_iff.1 (hdecls ▸ List.mem_map_of_mem hb), fun name id => ?_⟩
  exact numbered_ownRule h ((hp.map _).nodup_iff.2 hd) hb

end

/-- The grammars give the own rules of all grammars their numbers in the table. -/
def Covers (table : Array (Rule V)) (grammars : List Grammar) : Prop :=
  ∀ grammar name id, Numbered table grammar name id ↔
    ∃ g, find? grammars grammar = some g ∧ g.ownRule? name = some id

section
variable {r : Registry V} {table : Array (Rule V)} {blocks : List (Block V)}

theorem covers_blocks (ht : Tabled r table) (hb : ∀ b ∈ blocks, b.Placed r table)
    (hall : ∀ g ∈ r.grammars, ∃ b ∈ blocks, b.decl = g) : Covers table (blocks.map (·.grammar)) := by
  intro grammar name id
  constructor
  · intro hn
    obtain ⟨rule, hr, hg, hname⟩ := hn
    obtain ⟨g, hmem, declared, _, rfl⟩ := ht.entry id rule hr
    obtain ⟨b, hbmem, rfl⟩ := hall g hmem
    have hsome : (find? (blocks.map (·.grammar)) grammar).isSome := by
      rw [find?, List.find?_isSome]
      exact ⟨b.grammar, List.mem_map_of_mem hbmem, by simpa [(hb b hbmem).name] using hg⟩
    obtain ⟨g', hg'⟩ := Option.isSome_iff_exists.1 hsome
    refine ⟨g', hg', ?_⟩
    obtain ⟨b', hb', rfl⟩ := List.mem_map.1 (List.mem_of_find?_eq_some hg')
    have hb'name : b'.grammar.name = grammar := by simpa using List.find?_some hg'
    rw [(hb b' hb').own, ← (hb b' hb').name, hb'name]
    exact ⟨_, hr, hg, hname⟩
  · rintro ⟨g, hg, ho⟩
    obtain ⟨b, hbmem, rfl⟩ := List.mem_map.1 (List.mem_of_find?_eq_some hg)
    have hname : b.grammar.name = grammar := by simpa using List.find?_some hg
    rwa [(hb b hbmem).own, ← (hb b hbmem).name, hname] at ho

variable {grammars : List Grammar}

theorem resolveAlias_eq_ok_iff (hc : Covers table grammars) (owner : String) {target : String} {id : RuleId} :
    resolveAlias grammars owner target = .ok id ↔
      ∃ grammar n, Qualifies target grammar n ∧ Numbered table grammar n id := by
  have hnumbered : ∀ grammar n id, Numbered table grammar n id ↔
      ∃ g, find? grammars grammar = some g ∧ g.ownRule? n = some id := hc
  simp only [← splitQualified?_eq_some_iff, hnumbered]
  unfold resolveAlias
  rcases splitQualified? target with _ | ⟨grammar, n⟩
  · simp
  · simp only [Option.some.injEq, Prod.mk.injEq]
    rcases hg : find? grammars grammar with _ | g
    · simp [hg]
    · rcases hid : g.ownRule? n with _ | id' <;> simp [hg, hid]

/-- A numbered grammar with its aliases. -/
structure Block.Aliased (r : Registry V) (table : Array (Rule V)) (b : Block V) : Prop extends b.Placed r table where
  links : ∀ name, Option.Rel (fun target id => ∃ grammar n, Qualifies target grammar n ∧ Numbered table grammar n id)
    (b.decl.links.lookup name) (b.grammar.links.lookup name)

theorem lookup_rel {α β : Type} {R : α → β → Prop} {xs : List (String × α)} {ys : List (String × β)}
    (h : List.Forall₂ (fun x y => y.1 = x.1 ∧ R x.2 y.2) xs ys) (name : String) :
    Option.Rel R (xs.lookup name) (ys.lookup name) := by
  induction h with
  | nil => exact .none
  | @cons x y xs ys hxy _ ih =>
    rw [List.lookup_cons, List.lookup_cons, hxy.1]
    split
    · exact .some hxy.2
    · exact ih

/-- The aliases of a grammar are resolved if all of them lead to rules. -/
theorem exists_resolveAliases_iff (hc : Covers table grammars) {b : Block V} :
    (∃ b', resolveAliases grammars b = .ok b') ↔
      ∀ l ∈ b.decl.links, ∃ id grammar n, Qualifies l.2 grammar n ∧ Numbered table grammar n id := by
  unfold resolveAliases
  simp only [Except.exists_bind_eq_ok_iff, ← resolveAlias_eq_ok_iff hc b.decl.name]
  constructor
  · rintro ⟨links, hl, _⟩ l hmem
    obtain ⟨_, hl⟩ := Except.exists_mapM_eq_ok_iff.1 ⟨links, hl⟩ l hmem
    obtain ⟨id, hid, _⟩ := Except.bind_eq_ok hl
    exact ⟨id, hid⟩
  · intro h
    refine ⟨_, (Except.exists_mapM_eq_ok_iff.2 fun l hmem => ?_).choose_spec, _, rfl⟩
    obtain ⟨id, hid⟩ := h l hmem
    exact Except.exists_bind_eq_ok_iff.2 ⟨id, hid, _, rfl⟩

theorem resolveAliases_aliased (hc : Covers table grammars) {b b' : Block V} (hb : b.Placed r table)
    (h : resolveAliases grammars b = .ok b') : b'.decl = b.decl ∧ b'.Aliased r table := by
  obtain ⟨links, hl, h⟩ := Except.bind_eq_ok h
  cases h
  refine ⟨rfl, ⟨⟨hb.name, hb.references, hb.rules⟩, hb.decl, hb.own⟩, lookup_rel ?_⟩
  refine (Except.mapM_eq_ok hl).imp fun l l' hl => ?_
  obtain ⟨id, hid, hl⟩ := Except.bind_eq_ok hl
  cases hl
  exact ⟨rfl, (resolveAlias_eq_ok_iff hc _).1 hid⟩

/-! ## Names of a grammar -/

theorem eq_of_name (hd : r.names.Nodup) {g g' : GrammarDecl V} (hg : g ∈ r.grammars) (hg' : g' ∈ r.grammars)
    (h : g.name = g'.name) : g = g' :=
  List.inj_on_of_nodup_map hd hg hg' h

theorem exists_numbered_iff (ht : Tabled r table) {grammar n : String} :
    (∃ id, Numbered table grammar n id) ↔ ∃ rule, r.Declares grammar n rule := by
  constructor
  · rintro ⟨id, rule, hr, hg, hn⟩
    obtain ⟨g, hmem, declared, hdecl, rfl⟩ := ht.entry id rule hr
    exact ⟨declared, g, hmem, hg, hdecl, hn⟩
  · rintro ⟨rule, g, hmem, rfl, hdecl, rfl⟩
    obtain ⟨id, hid⟩ := ht.declared g hmem rule hdecl
    exact ⟨id, _, hid, rfl, rfl⟩

namespace Block

variable {b : Block V} {name : String} {id : RuleId}

theorem Placed.exists_ownRule_iff (hb : b.Placed r table) (hd : r.names.Nodup) (ht : Tabled r table) :
    (∃ id, b.grammar.ownRule? name = some id) ↔ ∃ rule ∈ b.decl.rules, rule.name = name := by
  simp only [hb.own, exists_numbered_iff ht]
  constructor
  · rintro ⟨rule, g, hmem, hg, hr, hn⟩
    obtain rfl := eq_of_name hd hmem hb.decl hg
    exact ⟨rule, hr, hn⟩
  · rintro ⟨rule, hr, hn⟩
    exact ⟨rule, b.decl, hb.decl, rfl, hr, hn⟩

theorem Placed.ownRule_eq_none_iff (hb : b.Placed r table) (hd : r.names.Nodup) (ht : Tabled r table) (name : String) :
    b.grammar.ownRule? name = none ↔ ∀ rule ∈ b.decl.rules, rule.name ≠ name := by
  rw [Option.eq_none_iff_forall_ne_some, ← not_exists, hb.exists_ownRule_iff hd ht]
  simp

/-- A grammar looks up the number of what a name stands for in it. -/
theorem Aliased.lookup?_iff (hb : b.Aliased r table) (hd : r.names.Nodup) (ht : Tabled r table) :
    b.grammar.lookup? name = some id ↔ ∃ grammar n, r.Finds b.decl name grammar n ∧ Numbered table grammar n id := by
  have hlinks := hb.links name
  have hown := hb.ownRule_eq_none_iff hd ht name
  rw [Grammar.lookup?, Option.orElse_eq_orElse, Option.orElse_eq_or, Option.or_eq_some_iff]
  constructor
  · rintro (ho | ⟨ho, hl⟩)
    · obtain ⟨rule, hr, hn⟩ := (hb.exists_ownRule_iff hd ht).1 ⟨id, ho⟩
      exact ⟨_, _, .own hr hn, (hb.own name id).1 ho⟩
    · rw [hl] at hlinks
      generalize hl' : b.decl.links.lookup name = t at hlinks
      cases hlinks with
      | some h =>
        obtain ⟨grammar, n, hq, hnum⟩ := h
        obtain ⟨rule, hdecl⟩ := (exists_numbered_iff ht).1 ⟨id, hnum⟩
        exact ⟨grammar, n, .linked (hown.1 ho) hl' hq hdecl, hnum⟩
  · rintro ⟨grammar, n, hf, hnum⟩
    cases hf with
    | own hr hn => exact .inl ((hb.own name id).2 hnum)
    | linked hnone hl hq hdecl =>
      rw [hl] at hlinks
      generalize hl' : b.grammar.links.lookup name = t at hlinks
      cases hlinks with
      | some h =>
        obtain ⟨grammar', n', hq', hnum'⟩ := h
        obtain ⟨rfl, rfl⟩ := hq.unique hq'
        exact .inr ⟨hown.2 hnone, by rw [ht.unique hnum hnum']⟩

theorem Aliased.exists_lookup?_iff (hb : b.Aliased r table) (hd : r.names.Nodup) (ht : Tabled r table) :
    (∃ id, b.grammar.lookup? name = some id) ↔ ∃ grammar n, r.Finds b.decl name grammar n := by
  simp only [hb.lookup?_iff hd ht]
  constructor
  · rintro ⟨id, grammar, n, hf, _⟩
    exact ⟨grammar, n, hf⟩
  · rintro ⟨grammar, n, hf⟩
    obtain ⟨id, hnum⟩ := (exists_numbered_iff ht).2 (hf.declares hb.decl)
    exact ⟨id, grammar, n, hf, hnum⟩

/-- A call is given the number of the rule it names. -/
theorem Aliased.resolve?_iff (hb : b.Aliased r table) (hd : r.names.Nodup) (ht : Tabled r table)
    (hc : Covers table grammars) :
    resolve? grammars b.grammar name = some id ↔
      ∃ grammar n, r.Resolves b.decl name grammar n ∧ Numbered table grammar n id := by
  have hnone : b.grammar.lookup? name = none ↔
      (∀ rule ∈ b.decl.rules, rule.name ≠ name) ∧ b.decl.links.lookup name = none := by
    rw [Grammar.lookup?, Option.orElse_eq_orElse, Option.orElse_eq_or, Option.or_eq_none_iff,
      hb.ownRule_eq_none_iff hd ht name]
    refine and_congr_right fun _ => ?_
    have hlinks := hb.links name
    generalize b.decl.links.lookup name = t at hlinks
    generalize b.grammar.links.lookup name = t' at hlinks
    cases hlinks <;> simp
  rw [resolve?, Option.orElse_eq_orElse, Option.orElse_eq_or, Option.or_eq_some_iff]
  constructor
  · rintro (hl | ⟨hl, hq⟩)
    · obtain ⟨grammar, n, hf, hnum⟩ := (hb.lookup?_iff hd ht).1 hl
      exact ⟨grammar, n, .found hf, hnum⟩
    · obtain ⟨⟨grammar, n⟩, hsplit, hq⟩ := Option.bind_eq_some_iff.1 hq
      obtain ⟨_, hv, hq⟩ := Option.bind_eq_some_iff.1 hq
      obtain ⟨g, hg, hid⟩ := Option.bind_eq_some_iff.1 hq
      have hnum := (hc grammar n id).2 ⟨g, hg, hid⟩
      obtain ⟨rule, hdecl⟩ := (exists_numbered_iff ht).1 ⟨id, hnum⟩
      have hv : grammar = b.decl.name ∨ grammar ∈ b.decl.references := by
        by_contra hn
        simp [guard, hb.name, hb.references, hn] at hv
      obtain ⟨hown, hnl⟩ := hnone.1 hl
      exact ⟨grammar, n, .qualified hown hnl hv (splitQualified?_eq_some_iff.1 hsplit) hdecl, hnum⟩
  · rintro ⟨grammar, n, hr, hnum⟩
    cases hr with
    | found hf => exact .inl ((hb.lookup?_iff hd ht).2 ⟨grammar, n, hf, hnum⟩)
    | qualified hown hnl hv hq hdecl =>
      obtain ⟨g, hg, hid⟩ := (hc grammar n id).1 hnum
      refine .inr ⟨hnone.2 ⟨hown, hnl⟩, ?_⟩
      rw [splitQualified?_eq_some_iff.2 hq]
      simp [hb.name, hb.references, hv, hg, hid]

end Block

end

end Link

end PegFront
