import PegFront.Proofs.Adequacy
import PegFront.Proofs.Cminor.Parse

/-!
# The linked rules

Linking gives every rule its place in one table and fills in the places of the rules it calls. No two grammars
have a rule of the same name, so a name is enough to tell a rule, and the table is what the declarations say with
every call aimed at the rule it names.
-/

namespace PegFront.Cminor

/-! ## The table -/

def ruleNames : List String := registry.grammars.flatMap fun g => g.rules.map (·.name)

/-- Place of the rule with a name. -/
def idOf (name : String) : RuleId := ruleNames.idxOf name

/-- The name of the rule a call means; one grammar calls a rule by another name. -/
def calledName (name : String) : String := if name = "CompoundStatement" then "Compound" else name

/-- Aims every call at the rule it names. -/
def aimed (p : Pattern) : Pattern :=
  Id.run (p.mapCallsM fun c => pure { c with target := some (idOf (calledName c.rule)) })

def linked (grammar : String) (rule : Rule Value) : Rule Value :=
  { rule with grammar, definition := aimed rule.definition }

def table : Array (Rule Value) :=
  (registry.grammars.flatMap fun g => g.rules.map (linked g.name)).toArray

/-- The rule that skips blanks and comments. -/
def blanks : Option RuleId := some (idOf "spaces_and_comments")

def SourceKind.startRule : SourceKind → String
  | .unit => "CompileUnit"
  | .statement => "Statement"
  | .expression => "Expression"

/-! ## Linking gives the table -/

/-- Every definition is aimed, and the roles of the grammars go to the rules with their names. -/
def tabulated (d : Domain Value) : Bool :=
  d.rules.toList.map (·.definition) == table.toList.map (·.definition) &&
    SourceKind.all.all fun kind => (d.grammar? kind.grammarName).any fun g =>
      g.skip == blanks && g.start == some (idOf kind.startRule)

theorem domain_tabulated : domain.toOption.any tabulated = true := by decide +kernel

theorem ruleNames_nodup : ruleNames.Nodup := by decide +kernel

theorem dependencyOrder_registry :
    Link.dependencyOrder registry.grammars.length registry.referencesOf = List.range 8 := by decide +kernel

theorem number_rules {next : Nat} {decls : List (GrammarDecl Value)} {blocks : List (Link.Block Value)}
    (h : Link.number next decls = .ok blocks) :
    blocks.flatMap (·.rules) = decls.flatMap fun g => g.rules.map fun rule => { rule with grammar := g.name } := by
  induction decls generalizing next blocks with
  | nil => cases h; rfl
  | cons g decls ih =>
    unfold Link.number at h
    dsimp only at h
    split at h
    · cases h
    · obtain ⟨rest, hrest, h⟩ := Except.bind_eq_ok h
      cases h
      simp only [List.flatMap_cons, ih hrest]

/-- Rules that differ in their definitions only are the same once the definitions agree. -/
theorem eq_of_redefines {rules rules' : List (Rule Value)} {f : Rule Value → Pattern}
    (h : List.Forall₂ Rule.Redefines rules rules')
    (hdef : rules'.map (·.definition) = rules.map f) :
    rules' = rules.map fun rule => { rule with definition := f rule } := by
  induction h with
  | nil => rfl
  | cons hr _ ih =>
    obtain ⟨definition, rfl⟩ := hr
    simp only [List.map_cons, List.cons.injEq] at hdef
    rw [List.map_cons, ih hdef.2, ← hdef.1]

theorem rules_eq_table {d : Domain Value} (h : domain = .ok d) (ht : tabulated d = true) : d.rules = table := by
  obtain ⟨blocks, rules, hb, hrules, hf, -⟩ := Registry.link_spec (link_of_domain h)
  rw [dependencyOrder_registry] at hb
  have hnumbered := number_rules hb
  rw [show (List.range 8).filterMap (registry.grammars[·]?) = registry.grammars from rfl] at hnumbered
  simp only [tabulated, Bool.and_eq_true, beq_iff_eq] at ht
  have hredef : List.Forall₂ Rule.Redefines rules.toList d.rules.toList := hf.imp fun _ _ h => h.1
  have hlist : rules.toList =
      registry.grammars.flatMap fun g => g.rules.map fun rule => { rule with grammar := g.name } := by
    rw [hrules, ← hnumbered]
  have htable := eq_of_redefines (f := fun rule => aimed rule.definition) hredef (by
    rw [ht.1, hlist]
    simp only [table, List.toList_toArray, List.map_flatMap, List.map_map]
    rfl)
  rw [← Array.toList_inj, htable, hlist]
  simp only [table, List.toList_toArray, List.map_flatMap, List.map_map]
  rfl

/-- Where a declared rule stands. -/
theorem table_idOf (g : GrammarDecl Value) (hg : g ∈ registry.grammars) (rule : Rule Value) (hr : rule ∈ g.rules) :
    table[idOf rule.name]? = some (linked g.name rule) := by
  have hmem : linked g.name rule ∈ table.toList := by
    simp only [table, List.toList_toArray, List.mem_flatMap, List.mem_map]
    exact ⟨g, hg, rule, hr, rfl⟩
  obtain ⟨i, hi, hget⟩ := List.getElem_of_mem hmem
  have hnames : table.toList.map (·.name) = ruleNames := by
    simp only [table, ruleNames, List.toList_toArray, List.map_flatMap, List.map_map]
    rfl
  have hi' : i < ruleNames.length := by rw [← hnames, List.length_map]; exact hi
  have hname : ruleNames[i] = rule.name := by
    simp only [← hnames, List.getElem_map, hget]
    rfl
  have hid : idOf rule.name = i := by
    rw [idOf, ← hname]
    exact ruleNames_nodup.idxOf_getElem i hi'
  rw [hid, ← Array.getElem?_toList, List.getElem?_eq_getElem hi, hget]

/-! ## Parses -/

/-- The rules and the file of a parse. -/
def world (fileIndex : Nat) (file : String) : World Value := ⟨table, file, fileIndex⟩

/-- The start rule for a kind of source, in the table. -/
theorem exists_entry (kind : SourceKind) : ∃ d g rule, domain = .ok d ∧ d.rules = table ∧
    d.grammar? kind.grammarName = some g ∧ g.start = some (idOf kind.startRule) ∧ g.skip = blanks ∧
    d.rules[idOf kind.startRule]? = some rule ∧ Progress.grounded d.rules g.skip = true ∧
    kind.startArgs.length = rule.arity ∧ rule.hasValue = true := by
  obtain ⟨d, hd, haudit⟩ := exists_domain
  have htab := domain_tabulated
  rw [hd] at htab
  have htab : tabulated d = true := htab
  have hrules := rules_eq_table hd htab
  simp only [tabulated, Bool.and_eq_true, List.all_eq_true] at htab
  have hroles := htab.2 kind (by cases kind <;> decide)
  simp only [Option.any_eq_true, Bool.and_eq_true, beq_iff_eq] at hroles
  obtain ⟨g, start, rule, hg, hstart, hrule, hgrounded, hargs, hvalue⟩ := exists_start haudit kind
  obtain ⟨g', hg', hskip, hstart'⟩ := hroles
  cases hg.symm.trans hg'
  cases hstart.symm.trans hstart'
  have harity : kind.startArgs.length = rule.arity := by
    simpa [Rule.arity] using congrArg List.length hargs
  exact ⟨d, g, rule, hd, hrules, hg, hstart, hskip, hrule, hgrounded, harity, by rw [Rule.hasValue, hvalue]; rfl⟩

theorem parse_eq_ok_iff (kind : SourceKind) (source : String) (options : Options) (session : Session Value)
    (v : Value) :
    (parse kind source options session).1 = .ok v ↔
      (world options.fileIndex options.file).Accepts blanks (idOf kind.startRule) kind.startArgs source.toList v := by
  obtain ⟨d, g, rule, hd, hrules, hg, hstart, hskip, hrule, hgrounded, harity, hvalue⟩ := exists_entry kind
  have hmem : g ∈ d.grammars := List.mem_of_find?_eq_some hg
  have hiff := parseIn_eq_ok_iff (Registry.linked (link_of_domain hd)) hgrounded hmem hstart hrule hvalue harity
    source options session v
  rw [hskip, hrules] at hiff
  refine Iff.trans ?_ hiff
  rw [parse_eq hd]
  simp only [parseWith, hg]
  rcases d.parseIn g source options kind.startArgs session with ⟨e | v' | _, session'⟩ <;> simp

/-- A file is read as what a value holds that its text is accepted with. -/
theorem parseFile_eq_ok_iff {α : Type} {kind : SourceKind} {needed : ValueKind} {content? : Value → Option α}
    {source : String} {fileIndex : Nat} {file : String} {a : α} :
    parseFile kind needed content? source fileIndex file = .ok a ↔ ∃ v, content? v = some a ∧
      (world fileIndex file).Accepts blanks (idOf kind.startRule) kind.startArgs source.toList v := by
  simp only [← parse_eq_ok_iff kind source { file, fileIndex } {}]
  unfold parseFile
  rcases (parse kind source { file, fileIndex } {}).1 with e | v
  · exact ⟨nofun, fun ⟨_, _, h⟩ => nomatch h⟩
  · show (Value.expect needed content? v).mapError Stop.error = .ok a ↔ _
    unfold Value.expect
    constructor
    · intro h
      refine ⟨v, ?_, rfl⟩
      split at h
      · next hc => cases h; exact hc
      · cases h
    · rintro ⟨v', hc, h⟩
      cases h
      rw [hc]
      rfl

end PegFront.Cminor
