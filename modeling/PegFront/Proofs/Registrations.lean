import Mathlib.Data.List.Nodup
import PegFront.Peg.Registry

/-!
# What registrations keep

A registry changes by two calls, `add` and `ensure`. Ensuring a grammar runs its factory in the middle
of the call, and a factory makes calls of its own, so the calls form a tree. `Registry.callsIn` lists
the calls of a whole run, nested ones included, each with the registry it was made on. `Orderly` says
what holds of all of them: the index always gives the positions of the registered names, registered
grammars stay where they are, a call leaves the pending names as they were, and a factory starts exactly
where its name is neither registered nor pending.
-/

namespace PegFront

variable {V : Type}

/-- A call that changes a registry. -/
inductive Registration (V : Type) where
  | add (grammar : GrammarDecl V)
  | ensure (name : String) (factory : Plan V)

namespace Registry

/-- Names of the registered grammars, in their order. -/
def names (r : Registry V) : List String := r.grammars.map (·.name)

def perform (r : Registry V) : Registration V → Except ParseError Unit × Registry V
  | .add g => r.add g
  | .ensure name factory => r.ensure name factory

/-- Makes calls one after the other, whatever their outcomes. -/
def performAll (r : Registry V) (calls : List (Registration V)) : Registry V :=
  calls.foldl (fun r c => (r.perform c).2) r

end Registry

/-! ## The calls of a run -/

/-- The calls a plan makes, each with the registry it is made on; the calls of a factory that is started
follow the call that starts it. -/
def Plan.calls : Plan V → Registry V → List (Registry V × Registration V)
  | .done _, _ | .fail _, _ => []
  | .add g next, r => (r, .add g) :: (next (r.add g).1).calls (r.add g).2
  | .ensure name factory next, r =>
    (r, .ensure name factory) ::
      ((if r.contains name then [] else factory.calls (r.begin name)) ++
        (next (r.ensure name factory).1).calls (r.ensure name factory).2)
  | .ask name next, r => (next (r.contains name)).calls r

namespace Registry

/-- A call and the calls made while it runs. -/
def callsOf (r : Registry V) : Registration V → List (Registry V × Registration V)
  | .add g => [(r, .add g)]
  | .ensure name factory =>
    (r, .ensure name factory) :: if r.contains name then [] else factory.calls (r.begin name)

/-- All calls made while calls are made one after the other. -/
def callsIn (r : Registry V) : List (Registration V) → List (Registry V × Registration V)
  | [] => []
  | c :: cs => r.callsOf c ++ (r.perform c).2.callsIn cs

/-- The name whose factory a call starts. -/
def startedBy : Registry V × Registration V → Option String
  | (_, .add _) => none
  | (r, .ensure name _) => if name ∉ r.names ∧ name ∉ r.pending then some name else none

/-! ## The index -/

variable {r : Registry V} {name : String}

/-- The index gives the position of every registered name and of no other, and names are distinct. -/
structure Indexed (r : Registry V) : Prop where
  position : ∀ name i, r.position? name = some i ↔ ∃ g, r.grammars[i]? = some g ∧ g.name = name
  distinct : r.names.Nodup

theorem indexed_empty : (empty : Registry V).Indexed :=
  ⟨fun _ _ => by simp [position?, empty], by simp [names, empty]⟩

theorem Indexed.isSome_position? (h : r.Indexed) : (r.position? name).isSome ↔ name ∈ r.names := by
  rw [Option.isSome_iff_exists, names, List.mem_map]
  simp only [h.position]
  constructor
  · rintro ⟨i, g, hg, hn⟩
    exact ⟨g, List.mem_of_getElem? hg, hn⟩
  · rintro ⟨g, hg, hn⟩
    obtain ⟨i, hi⟩ := List.getElem?_of_mem hg
    exact ⟨i, g, hi, hn⟩

theorem Indexed.contains_iff (h : r.Indexed) :
    r.contains name = true ↔ name ∈ r.names ∨ name ∈ r.pending := by
  simp [contains, h.isSome_position?]

/-- The registry with one more grammar. -/
def push (r : Registry V) (g : GrammarDecl V) : Registry V :=
  { r with
    grammars := r.grammars ++ [g]
    index := r.index ++ [(g.name, r.grammars.length)] }

theorem names_push (g : GrammarDecl V) : (r.push g).names = r.names ++ [g.name] := by
  simp [push, names]

theorem position?_push {g : GrammarDecl V} (hg : r.position? g.name = none) :
    (r.push g).position? name = if name = g.name then some r.grammars.length else r.position? name := by
  rw [position?] at hg
  by_cases hn : name = g.name
  · subst hn
    simp [push, position?, List.lookup_append, hg]
  · have hne : (name == g.name) = false := by simpa using hn
    simp [push, position?, List.lookup_append, List.lookup_cons, List.lookup_nil, hn, hne]

/-- A grammar under a new name gets the next position. -/
theorem Indexed.push {g : GrammarDecl V} (h : r.Indexed) (hg : g.name ∉ r.names) : (r.push g).Indexed := by
  have hnew : r.position? g.name = none := by
    simpa [← h.isSome_position?] using hg
  have hnone : ∀ (i : Nat) (g' : GrammarDecl V), r.grammars[i]? = some g' → g'.name ≠ g.name := fun i g' hi hn =>
    hg (hn ▸ List.mem_map_of_mem (List.mem_of_getElem? hi))
  refine ⟨fun name i => ?_, ?_⟩
  · rw [position?_push hnew]
    have hold := h.position name i
    have hlt : ∀ g', r.grammars[i]? = some g' → i < r.grammars.length := fun g' hi =>
      (List.getElem?_eq_some_iff.1 hi).1
    simp only [Registry.push, List.getElem?_append, List.getElem?_singleton]
    grind
  · rw [names_push, List.nodup_append]
    refine ⟨h.distinct, List.nodup_singleton _, ?_⟩
    rintro a ha b hb rfl
    exact hg (List.mem_singleton.1 hb ▸ ha)

/-! ## One call -/

/-- What a call keeps: the registered grammars, as the first of those after it, and the pending names. -/
structure Keeps (r s : Registry V) : Prop where
  grammars : r.grammars <+: s.grammars
  pending : ∀ name, name ∈ s.pending ↔ name ∈ r.pending

theorem Keeps.rfl : r.Keeps r := ⟨List.prefix_rfl, fun _ => Iff.rfl⟩

theorem Keeps.trans {s t : Registry V} (h : r.Keeps s) (h' : s.Keeps t) : r.Keeps t :=
  ⟨h.grammars.trans h'.grammars, fun name => (h'.pending name).trans (h.pending name)⟩

/-- Adding a grammar changes nothing, or appends it under a new name. -/
theorem Indexed.add_cases (h : r.Indexed) (g : GrammarDecl V) :
    (r.add g).2 = r ∨ g.name ∉ r.names ∧ (r.add g).2 = r.push g := by
  unfold add
  split
  · exact .inl rfl
  · next hn =>
    rw [h.isSome_position?] at hn
    exact .inr ⟨hn, rfl⟩

theorem Indexed.add (h : r.Indexed) (g : GrammarDecl V) : (r.add g).2.Indexed := by
  rcases h.add_cases g with he | ⟨hn, he⟩
  · rwa [he]
  · rw [he]
    exact h.push hn

theorem Indexed.keeps_add (h : r.Indexed) (g : GrammarDecl V) : r.Keeps (r.add g).2 := by
  rcases h.add_cases g with he | ⟨_, he⟩
  · rw [he]
    exact .rfl
  · rw [he]
    exact ⟨List.prefix_append _ _, fun _ => Iff.rfl⟩

theorem started_add (g : GrammarDecl V) : (r.add g).2.started = r.started := by
  unfold Registry.add
  split <;> rfl

/-! ## All calls of a run -/

/-- What holds of the calls made on the way from one registry to another. -/
structure Orderly (r : Registry V) (made : List (Registry V × Registration V)) (s : Registry V) : Prop where
  indexed : s.Indexed
  keeps : r.Keeps s
  /-- Every call is made on a registry in order and leaves one, and keeps what is there. -/
  calls : ∀ c ∈ made, c.1.Indexed ∧ (c.1.perform c.2).2.Indexed ∧ c.1.Keeps (c.1.perform c.2).2
  /-- From a registry to every later one, grammars are only appended. -/
  first : ∀ c ∈ made, r.grammars <+: c.1.grammars
  later : made.Pairwise fun c d => c.1.grammars <+: d.1.grammars
  last : ∀ c ∈ made, (c.1.perform c.2).2.grammars <+: s.grammars
  /-- Factories were started by the calls that found their names neither registered nor pending. -/
  started : s.started = r.started ++ made.filterMap startedBy

namespace Orderly

variable {s t : Registry V} {made made' : List (Registry V × Registration V)}

theorem nil (h : r.Indexed) : Orderly r [] r where
  indexed := h
  keeps := .rfl
  calls := by simp
  first := by simp
  later := .nil
  last := by simp
  started := by simp

theorem trans (h : Orderly r made s) (h' : Orderly s made' t) : Orderly r (made ++ made') t where
  indexed := h'.indexed
  keeps := h.keeps.trans h'.keeps
  calls c hc := (List.mem_append.1 hc).elim (h.calls c) (h'.calls c)
  first c hc := (List.mem_append.1 hc).elim (h.first c) fun hc => h.keeps.grammars.trans (h'.first c hc)
  later := List.pairwise_append.2 ⟨h.later, h'.later, fun c hc d hd =>
    (h.calls c hc).2.2.grammars.trans ((h.last c hc).trans (h'.first d hd))⟩
  last c hc := (List.mem_append.1 hc).elim (fun hc => (h.last c hc).trans h'.keeps.grammars) (h'.last c)
  started := by rw [h'.started, h.started, List.filterMap_append, List.append_assoc]

end Orderly

/-- Adding is one call. -/
theorem Indexed.orderly_add (h : r.Indexed) (g : GrammarDecl V) : Orderly r [(r, .add g)] (r.add g).2 where
  indexed := h.add g
  keeps := h.keeps_add g
  calls := by
    rintro c hc
    obtain rfl := List.mem_singleton.1 hc
    exact ⟨h, h.add g, h.keeps_add g⟩
  first := by simp
  later := List.pairwise_singleton _ _
  last := by simp [perform]
  started := by simp [started_add, startedBy]

/-- A call for a name that is registered or pending does nothing. -/
theorem Indexed.orderly_known (h : r.Indexed) (hn : r.contains name) (factory : Plan V) :
    Orderly r [(r, .ensure name factory)] (r.ensure name factory).2 := by
  have he : r.ensure name factory = (.ok (), r) := by simp [ensure, ensureWith, hn]
  have hs : ¬(name ∉ r.names ∧ name ∉ r.pending) := by
    rw [h.contains_iff] at hn
    tauto
  rw [he]
  refine ⟨h, .rfl, ?_, by simp, List.pairwise_singleton _ _, ?_, by simp [startedBy, hs]⟩
  · intro c hc
    obtain rfl := List.mem_singleton.1 hc
    simp only [perform, he]
    exact ⟨h, h, .rfl⟩
  · intro c hc
    obtain rfl := List.mem_singleton.1 hc
    simp [perform, he]

/-- A factory leaves its own name pending; without it the pending names are those before the call. -/
theorem Keeps.finish {s : Registry V} (h : (r.begin name).Keeps s) (hn : name ∉ r.pending) :
    r.Keeps (s.finish name) := by
  refine ⟨h.grammars, fun n => ?_⟩
  simp only [Registry.finish, List.mem_filter, h.pending, begin, List.mem_cons, bne_iff_ne]
  constructor
  · rintro ⟨rfl | hp, hne⟩
    · exact absurd (Eq.refl _) hne
    · exact hp
  · intro hp
    exact ⟨.inr hp, fun he => hn (he ▸ hp)⟩

/-- The registry a factory leaves, whether its grammar is then registered or not. -/
theorem ensure_cases (hn : ¬r.contains name) (factory : Plan V) :
    (r.ensure name factory).2 = (factory.run (r.begin name)).2.finish name ∨
      ∃ g, (r.ensure name factory).2 = (((factory.run (r.begin name)).2.finish name).add g).2 := by
  simp only [ensure, ensureWith, if_neg hn]
  split
  · exact .inr ⟨_, rfl⟩
  · exact .inl rfl

/-- A call that runs a factory, followed by the calls of the factory. -/
theorem Indexed.orderly_new (h : r.Indexed) (hn : ¬r.contains name) {factory : Plan V}
    (hf : Orderly (r.begin name) (factory.calls (r.begin name)) (factory.run (r.begin name)).2) :
    Orderly r ((r, .ensure name factory) :: factory.calls (r.begin name)) (r.ensure name factory).2 := by
  have hnew : name ∉ r.names ∧ name ∉ r.pending := by simpa [h.contains_iff] using hn
  generalize hs : (factory.run (r.begin name)).2 = s at hf
  -- the registry after the factory, its name no longer pending, and after the last registration
  have hi : (s.finish name).Indexed := ⟨hf.indexed.position, hf.indexed.distinct⟩
  obtain ⟨ht, hk, hst⟩ : (r.ensure name factory).2.Indexed ∧ (s.finish name).Keeps (r.ensure name factory).2 ∧
      (r.ensure name factory).2.started = s.started := by
    rcases ensure_cases hn factory with he | ⟨g, he⟩ <;> rw [he, hs]
    · exact ⟨hi, .rfl, rfl⟩
    · exact ⟨hi.add g, hi.keeps_add g, started_add g⟩
  have hkeeps : r.Keeps (r.ensure name factory).2 := (hf.keeps.finish hnew.2).trans hk
  refine ⟨ht, hkeeps, List.forall_mem_cons.2 ⟨⟨h, ht, hkeeps⟩, hf.calls⟩,
    List.forall_mem_cons.2 ⟨List.prefix_rfl, hf.first⟩, List.pairwise_cons.2 ⟨hf.first, hf.later⟩,
    List.forall_mem_cons.2 ⟨List.prefix_rfl, fun c hc => (hf.last c hc).trans hk.grammars⟩, ?_⟩
  rw [hst, hf.started]
  simp [startedBy, hnew, begin]

/-- Ensuring is orderly if its factory is. -/
theorem Indexed.orderly_ensure (h : r.Indexed) (name : String) {factory : Plan V}
    (hf : ∀ {r : Registry V}, r.Indexed → Orderly r (factory.calls r) (factory.run r).2) :
    Orderly r (r.callsOf (.ensure name factory)) (r.ensure name factory).2 := by
  simp only [callsOf]
  split
  · next hn => exact h.orderly_known hn factory
  · next hn =>
    have hb : (r.begin name).Indexed := ⟨h.position, h.distinct⟩
    exact h.orderly_new hn (hf hb)

/-- What a factory does is orderly, however deep its calls are nested. -/
theorem Indexed.orderly_plan {r : Registry V} (h : r.Indexed) (p : Plan V) :
    Orderly r (p.calls r) (p.run r).2 := by
  induction p generalizing r with
  | done g => exact .nil h
  | fail e => exact .nil h
  | add g next ih =>
    have hadd := h.orderly_add g
    exact hadd.trans (ih _ hadd.indexed)
  | ensure name factory next ihf ih =>
    have hens := h.orderly_ensure name ihf
    exact hens.trans (ih _ hens.indexed)
  | ask name next ih => exact ih _ h

theorem Indexed.orderly_perform (h : r.Indexed) (c : Registration V) :
    Orderly r (r.callsOf c) (r.perform c).2 := by
  cases c with
  | add g => exact h.orderly_add g
  | ensure name factory => exact h.orderly_ensure name fun h => h.orderly_plan factory

theorem Indexed.orderly_performAll (h : r.Indexed) (calls : List (Registration V)) :
    Orderly r (r.callsIn calls) (r.performAll calls) := by
  induction calls generalizing r with
  | nil => exact .nil h
  | cons c cs ih =>
    have hc := h.orderly_perform c
    exact hc.trans (ih hc.indexed)

/-- Whatever calls are made on a new registry, and whatever their factories do, the index gives the
positions of the registered names, which are distinct; from every call on, grammars are only appended;
each call leaves the pending names as they were; and the factories started are those of the calls that
found their names neither registered nor pending. -/
theorem registrations_orderly (calls : List (Registration V)) :
    Orderly empty (empty.callsIn calls) (empty.performAll calls) :=
  indexed_empty.orderly_performAll calls

end Registry

end PegFront
