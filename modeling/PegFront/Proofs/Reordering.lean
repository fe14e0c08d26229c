import PegFront.Proofs.Relabelling
import PegFront.Proofs.WellFormed

/-!
# The order of registration

Whether a registry is well-formed, and what its names stand for, depends on which grammars it holds and
not on their order. So registries with the same grammars link together, and their domains hold the same
rules under other numbers (`Domain.renumber`); by the laws of `Relabelling` they parse alike.
-/

namespace PegFront

variable {V : Type} {r r' : Registry V}

/-! ## Registries with the same grammars -/

namespace Registry

section
variable (hp : r.grammars.Perm r'.grammars)
include hp

theorem declares_perm {grammar n : String} {rule : Rule V} :
    r.Declares grammar n rule ↔ r'.Declares grammar n rule := by
  simp only [Declares, hp.mem_iff]

theorem Finds.perm {g : GrammarDecl V} {name grammar n : String} (h : r.Finds g name grammar n) :
    r'.Finds g name grammar n := by
  cases h with
  | own hr hn => exact .own hr hn
  | linked hown hl hq hd => exact .linked hown hl hq ((declares_perm hp).1 hd)

theorem Resolves.perm {g : GrammarDecl V} {name grammar n : String} (h : r.Resolves g name grammar n) :
    r'.Resolves g name grammar n := by
  cases h with
  | found h => exact .found (h.perm hp)
  | qualified hown hl hv hq hd => exact .qualified hown hl hv hq ((declares_perm hp).1 hd)

theorem WellFormed.perm (h : r.WellFormed) : r'.WellFormed := by
  have hmem : ∀ {g}, g ∈ r'.grammars → g ∈ r.grammars := hp.mem_iff.2
  refine ⟨fun g hg name hname => ?_, fun g hg => h.distinct g (hmem hg), fun g hg l hl => ?_, fun g hg name hn => ?_,
    fun g hg name hn => ?_, fun g hg rule hr => ?_⟩
  · exact (hp.map _).mem_iff.1 (h.references g (hmem hg) name hname)
  · obtain ⟨grammar, n, rule, hq, hd⟩ := h.links g (hmem hg) l hl
    exact ⟨grammar, n, rule, hq, (declares_perm hp).1 hd⟩
  · obtain ⟨grammar, n, hf⟩ := h.start g (hmem hg) name hn
    exact ⟨grammar, n, hf.perm hp⟩
  · obtain ⟨grammar, n, rule, hf, hd, hplain⟩ := h.skip g (hmem hg) name hn
    exact ⟨grammar, n, rule, hf.perm hp, (declares_perm hp).1 hd, hplain⟩
  · have hrule := h.rules g (hmem hg) rule hr
    refine ⟨hrule.forwarded, hrule.actions, hrule.sets, fun c hc => ?_⟩
    obtain ⟨grammar, n, callee, hres, hd, ha⟩ := hrule.calls c hc
    exact ⟨grammar, n, callee, hres.perm hp, (declares_perm hp).1 hd, ha⟩

end

/-- Grammars with distinct new names are all registered, in their order. -/
theorem Indexed.grammars_performAll {gs : List (GrammarDecl V)} (hi : r.Indexed)
    (hd : (r.names ++ gs.map (·.name)).Nodup) :
    (r.performAll (gs.map .add)).grammars = r.grammars ++ gs := by
  induction gs generalizing r with
  | nil => simp [performAll]
  | cons g gs ih =>
    have hnew : g.name ∉ r.names := fun h =>
      (List.nodup_append.1 hd).2.2 _ h _ (by simp) rfl
    have hadd : (r.add g).2 = r.push g := by
      rw [Registry.add, if_neg (by rwa [hi.isSome_position?])]
      rfl
    have hrest := ih (r := (r.add g).2) (hi.add g) (by
      rw [hadd, names_push, List.append_assoc]
      exact hd)
    show ((r.add g).2.performAll (gs.map .add)).grammars = _
    rw [hrest, hadd]
    simp [Registry.push]

end Registry

/-! ## Domains of the same registry -/

/-- Other numbers for the rules, with nothing done to the trace. -/
def Relabelling.ofRules (f : RuleId → RuleId) : Relabelling := ⟨f, id, fun _ _ _ _ _ _ => rfl⟩

namespace Domain

variable {d d' : Domain V}

/-- The number is that of the rule which a role of the grammar names. -/
def Cast (d : Domain V) (r : Registry V) (g : GrammarDecl V) (name : String) (id : RuleId) : Prop :=
  ∃ grammar n, r.Finds g name grammar n ∧ Numbered d.rules grammar n id

theorem Cast.perm (hp : r.grammars.Perm r'.grammars) {g : GrammarDecl V} {name : Option String} {id : Option RuleId}
    (h : Option.Rel (d.Cast r g) name id) : Option.Rel (d.Cast r' g) name id := by
  cases h with
  | none => exact .none
  | some h =>
    obtain ⟨grammar, n, hf, hn⟩ := h
    exact .some ⟨grammar, n, hf.perm hp, hn⟩

theorem Realizes.perm (h : d.Realizes r) (hp : r.grammars.Perm r'.grammars) : d.Realizes r' := by
  have hmem : ∀ {g}, g ∈ r'.grammars → g ∈ r.grammars := hp.mem_iff.2
  refine ⟨h.size.trans (hp.map _).sum_nat, h.unique, fun g hg rule hr => ?_, fun id rule hid => ?_, fun g hg => ?_,
    fun g' hg' => ?_⟩
  · obtain ⟨id, target, hid, hcalls⟩ := h.rules g (hmem hg) rule hr
    refine ⟨id, target, hid, fun c hc => ?_⟩
    obtain ⟨grammar, n, hres, hnum⟩ := hcalls c hc
    exact ⟨grammar, n, hres.perm hp, hnum⟩
  · obtain ⟨g, hg, hrest⟩ := h.entry id rule hid
    exact ⟨g, hp.mem_iff.1 hg, hrest⟩
  · obtain ⟨g', hg', hname, hstart, hskip⟩ := h.grammars g (hmem hg)
    exact ⟨g', hg', hname, Cast.perm hp hstart, Cast.perm hp hskip⟩
  · exact (hp.map _).mem_iff.1 (h.named g' hg')

/-- The number that a rule has in another domain, which is out of range if it is not there. -/
def renumber (d d' : Domain V) (id : RuleId) : RuleId :=
  match d.rules[id]? with
  | some rule => d'.rules.toList.findIdx fun rule' => rule'.grammar == rule.grammar && rule'.name == rule.name
  | none => d'.rules.size

theorem Realizes.renumber_eq (h' : d'.Realizes r) {grammar n : String} {id id' : RuleId}
    (hn : Numbered d.rules grammar n id) (hn' : Numbered d'.rules grammar n id') : renumber d d' id = id' := by
  obtain ⟨rule, hr, rfl, rfl⟩ := hn
  refine h'.unique ?_ hn'
  obtain ⟨rule', hr', hgrammar, hname⟩ := hn'
  simp only [renumber, hr]
  let p (rule' : Rule V) : Bool := rule'.grammar == rule.grammar && rule'.name == rule.name
  have hfound : d'.rules.toList.findIdx p < d'.rules.toList.length :=
    List.findIdx_lt_length_of_exists
      ⟨rule', List.mem_of_getElem? (by simpa using hr'), by simp [p, hgrammar, hname]⟩
  have hsame : p (d'.rules.toList[d'.rules.toList.findIdx p]) = true := List.findIdx_getElem
  exact ⟨_, (Array.getElem?_toList ..).symm.trans (List.getElem?_eq_getElem hfound), by simpa [p] using hsame⟩

/-- Domains of the same registry have the same rules under other numbers. -/
theorem Realizes.tables (h : d.Realizes r) (h' : d'.Realizes r) :
    (Relabelling.ofRules (renumber d d')).Tables d.rules d'.rules := by
  intro id
  show d'.rules[renumber d d' id]? = d.rules[id]?.map (Rule.retarget (renumber d d'))
  rcases hid : d.rules[id]? with _ | rule
  · rw [renumber, hid]
    simp
  obtain ⟨g, hg, declared, hdeclared, hgrammar, hname⟩ := h.entry id rule hid
  obtain ⟨id₀, target, hid₀, hcalls⟩ := h.rules g hg declared hdeclared
  obtain ⟨id', target', hid', hcalls'⟩ := h'.rules g hg declared hdeclared
  obtain rfl : id₀ = id := h.unique ⟨_, hid₀, rfl, rfl⟩ ⟨rule, hid, hgrammar, hname⟩
  rw [h'.renumber_eq ⟨rule, hid, hgrammar, hname⟩ ⟨_, hid', rfl, rfl⟩, hid']
  rw [hid₀, Option.some.injEq] at hid
  subst hid
  have hdefinition : declared.definition.mapCalls (Call.aim target') =
      (declared.definition.mapCalls (Call.aim target)).mapCalls (Call.retarget (renumber d d')) := by
    rw [Pattern.mapCalls_mapCalls]
    refine Pattern.mapCalls_congr fun c hc => ?_
    obtain ⟨grammar, n, hres, hn⟩ := hcalls c hc
    obtain ⟨grammar', n', hres', hn'⟩ := hcalls' c hc
    obtain ⟨rfl, rfl⟩ := hres.unique hres'
    simp [Call.aim, Call.retarget, h'.renumber_eq hn hn']
  rw [hdefinition, Option.map_some]
  rfl

/-- The roles of a grammar are the same rules in both domains. -/
theorem Realizes.role_eq (h' : d'.Realizes r) {g : GrammarDecl V} {name : Option String} {id id' : Option RuleId}
    (hn : Option.Rel (d.Cast r g) name id) (hn' : Option.Rel (d'.Cast r g) name id') :
    id' = id.map (renumber d d') := by
  cases hn with
  | none => cases hn'; rfl
  | some hn =>
    cases hn' with
    | some hn' =>
      obtain ⟨grammar, n, hf, hn⟩ := hn
      obtain ⟨grammar', n', hf', hn'⟩ := hn'
      obtain ⟨rfl, rfl⟩ := hf.unique hf'
      rw [Option.map_some, h'.renumber_eq hn hn']

theorem Realizes.grammar?_eq_none (h : d.Realizes r) {name : String} (hname : name ∉ r.names) :
    d.grammar? name = none :=
  List.find?_eq_none.2 fun g hg heq => hname (by simpa [← beq_iff_eq.1 heq] using h.named g hg)

attribute [ext] Session

theorem parseIn_renumber {f : RuleId → RuleId} (ht : (Relabelling.ofRules f).Tables d.rules d'.rules)
    (hsize : d'.rules.size = d.rules.size) {g g' : Grammar} (hname : g'.name = g.name)
    (hstart : g'.start = g.start.map f) (hskip : g'.skip = g.skip.map f) (source : String) (options : Options)
    (args : List V) (session : Session V) :
    d'.parseIn g' source options args session = d.parseIn g source options args session := by
  obtain ⟨hresult, hstack, htrace⟩ := Domain.parseIn_relabel ht hsize hname hstart hskip options options
    rfl rfl rfl source args session
  exact Prod.ext hresult (Session.ext hstack (htrace fun _ => rfl))

/-- Domains of the same registry parse alike. -/
theorem Realizes.parseIn_eq (h : d.Realizes r) (h' : d'.Realizes r) (name source : String) (options : Options)
    (args : List V) (session : Session V) :
    (d.grammar? name).map (d.parseIn · source options args session) =
      (d'.grammar? name).map (d'.parseIn · source options args session) := by
  by_cases hname : name ∈ r.names
  · obtain ⟨g, hg, rfl⟩ := List.mem_map.1 hname
    obtain ⟨g₁, hg₁, hname₁, hstart₁, hskip₁⟩ := h.grammars g hg
    obtain ⟨g₂, hg₂, hname₂, hstart₂, hskip₂⟩ := h'.grammars g hg
    rw [hg₁, hg₂, Option.map_some, Option.map_some]
    refine congrArg some (Eq.symm ?_)
    exact Domain.parseIn_renumber (h.tables h') (h'.size.trans h.size.symm) (hname₂.trans hname₁.symm)
      (h'.role_eq hstart₁ hstart₂) (h'.role_eq hskip₁ hskip₂) source options args session
  · rw [h.grammar?_eq_none hname, h'.grammar?_eq_none hname, Option.map_none, Option.map_none]

end Domain

/-- Grammars with distinct names may be registered in any order: they link in one order if and only if they do in
another one, and then every parse gives the same result and leaves the same session. -/
theorem Registry.order_irrelevant {gs gs' : List (GrammarDecl V)} (hd : (gs.map (·.name)).Nodup) (hp : gs.Perm gs') :
    ((∃ d, (Registry.empty.performAll (gs.map .add)).link = .ok d) ↔
      ∃ d', (Registry.empty.performAll (gs'.map .add)).link = .ok d') ∧
    ∀ d d', (Registry.empty.performAll (gs.map .add)).link = .ok d →
      (Registry.empty.performAll (gs'.map .add)).link = .ok d' →
      ∀ name source options args session,
        (d.grammar? name).map (d.parseIn · source options args session) =
          (d'.grammar? name).map (d'.parseIn · source options args session) := by
  have hd' : (gs'.map (·.name)).Nodup := (hp.map _).nodup_iff.1 hd
  have hi := (indexed_empty.orderly_performAll (gs.map Registration.add)).indexed
  have hi' := (indexed_empty.orderly_performAll (gs'.map Registration.add)).indexed
  have hgrammars : (Registry.empty.performAll (gs.map .add)).grammars.Perm
      (Registry.empty.performAll (gs'.map .add)).grammars := by
    rw [indexed_empty.grammars_performAll hd, indexed_empty.grammars_performAll hd']
    exact hp.append_left _
  refine ⟨⟨fun h => hi'.links ((hi.wellFormed h).perm hgrammars),
    fun h => hi.links ((hi'.wellFormed h).perm hgrammars.symm)⟩, fun d d' h h' => ?_⟩
  exact ((hi.realizes h).perm hgrammars).parseIn_eq (hi'.realizes h')

/-- Grammars that refer to each other link in either order. -/
theorem Registry.mutual_reversed : (mutual.grammars.map (·.name)).Nodup ∧ mutual.grammars.Perm mutual.grammars.reverse ∧
    ∃ d, (Registry.empty.performAll (mutual.grammars.reverse.map .add)).link = .ok d := by
  have hd : (mutual.grammars.map (·.name)).Nodup := by decide
  have hp := mutual.grammars.reverse_perm.symm
  refine ⟨hd, hp, (order_irrelevant hd hp).1.1 ?_⟩
  have hok : ((Registry.empty.performAll (mutual.grammars.map .add)).link.toOption.isSome) = true := by decide +kernel
  cases h : (Registry.empty.performAll (mutual.grammars.map .add)).link with
  | ok d => exact ⟨d, rfl⟩
  | error e =>
    rw [h] at hok
    nomatch hok

end PegFront
