import PegFront.Proofs.Link

/-!
# Nodes and calls of patterns

What stands in a pattern, and what becomes of a pattern when its calls are replaced.
-/

namespace PegFront

/-- The call with a target. -/
def Call.aim (target : Call → RuleId) (c : Call) : Call := { c with target := some (target c) }

namespace Pattern

theorem self_mem_nodes (p : Pattern) : p ∈ p.nodes := by cases p <;> simp [nodes]

theorem nodes_subset {p q : Pattern} (h : q ∈ p.children) : q.nodes ⊆ p.nodes := by
  intro n hn
  cases p <;> simp only [children, List.mem_cons, List.not_mem_nil, or_false] at h <;>
    simp only [nodes, List.mem_cons, List.mem_append]
  case seq | alt | diff | list =>
    rcases h with rfl | rfl
    · exact .inr (.inl hn)
    · exact .inr (.inr hn)
  all_goals
    subst h
    exact .inr hn

/-- The pattern with every call replaced. -/
def mapCalls (f : Call → Call) : Pattern → Pattern
  | .seq a b => .seq (a.mapCalls f) (b.mapCalls f)
  | .alt a b => .alt (a.mapCalls f) (b.mapCalls f)
  | .diff a b => .diff (a.mapCalls f) (b.mapCalls f)
  | .list a b => .list (a.mapCalls f) (b.mapCalls f)
  | .opt p => .opt (p.mapCalls f)
  | .many p => .many (p.mapCalls f)
  | .many1 p => .many1 (p.mapCalls f)
  | .expect p => .expect (p.mapCalls f)
  | .token p => .token (p.mapCalls f)
  | .lookahead p => .lookahead (p.mapCalls f)
  | .notAhead p => .notAhead (p.mapCalls f)
  | .act action p => .act action (p.mapCalls f)
  | .keywords p words => .keywords (p.mapCalls f) words
  | .call c => .call (f c)
  | p => p

theorem mapCalls_mapCalls (f g : Call → Call) (p : Pattern) : (p.mapCalls f).mapCalls g = p.mapCalls (g ∘ f) := by
  induction p with
  | seq a b iha ihb | alt a b iha ihb | diff a b iha ihb | list a b iha ihb => simp only [mapCalls, iha, ihb]
  | opt a ih | many a ih | many1 a ih | expect a ih | token a ih | lookahead a ih | notAhead a ih | act _ a ih
  | keywords a _ ih => simp only [mapCalls, ih]
  | call | empty | one | text | keyword => rfl

theorem mapCalls_id (p : Pattern) : p.mapCalls id = p := by
  induction p with
  | seq a b iha ihb | alt a b iha ihb | diff a b iha ihb | list a b iha ihb => simp only [mapCalls, iha, ihb]
  | opt a ih | many a ih | many1 a ih | expect a ih | token a ih | lookahead a ih | notAhead a ih | act _ a ih
  | keywords a _ ih => simp only [mapCalls, ih]
  | call | empty | one | text | keyword => rfl

/-- The second pattern is the first one or stands somewhere below it. -/
inductive Has : Pattern → Pattern → Prop
  | self {p} : Has p p
  | child {p q n} (hq : q ∈ p.children) (h : Has q n) : Has p n

theorem mem_nodes_iff {p n : Pattern} : n ∈ p.nodes ↔ p.Has n := by
  constructor
  · intro h
    induction p with
    | seq a b iha ihb | alt a b iha ihb | diff a b iha ihb | list a b iha ihb =>
      simp only [nodes, List.mem_cons, List.mem_append] at h
      rcases h with rfl | h | h
      · exact .self
      · exact .child (q := a) (by simp [children]) (iha h)
      · exact .child (q := b) (by simp [children]) (ihb h)
    | opt a ih | many a ih | many1 a ih | expect a ih | token a ih | lookahead a ih | notAhead a ih | act _ a ih
    | keywords a _ ih =>
      simp only [nodes, List.mem_cons] at h
      rcases h with rfl | h
      · exact .self
      · exact .child (q := a) (by simp [children]) (ih h)
    | empty | one | text | keyword | call =>
      simp only [nodes, List.mem_singleton] at h
      subst h
      exact .self
  · intro h
    induction h with
    | self => exact self_mem_nodes _
    | child hq _ ih => exact nodes_subset hq ih

section
variable {f : Call → Except ParseError Call} {g : Call → Call}

theorem exists_mapCallsM_iff {p : Pattern} :
    (∃ p', p.mapCallsM f = .ok p') ↔ ∀ c, .call c ∈ p.nodes → ∃ c', f c = .ok c' := by
  induction p with
  | seq a b iha ihb | alt a b iha ihb | diff a b iha ihb | list a b iha ihb =>
    simp only [mapCallsM, Except.exists_bind_eq_ok_iff, nodes, List.mem_cons, List.mem_append, reduceCtorEq, false_or]
    constructor
    · rintro ⟨a', ha, b', hb, _⟩ c (hc | hc)
      · exact iha.1 ⟨a', ha⟩ c hc
      · exact ihb.1 ⟨b', hb⟩ c hc
    · intro h
      obtain ⟨a', ha⟩ := iha.2 fun c hc => h c (.inl hc)
      obtain ⟨b', hb⟩ := ihb.2 fun c hc => h c (.inr hc)
      exact ⟨a', ha, b', hb, _, rfl⟩
  | opt a ih | many a ih | many1 a ih | expect a ih | token a ih | lookahead a ih | notAhead a ih | act _ a ih
  | keywords a _ ih =>
    simp only [mapCallsM, Except.exists_bind_eq_ok_iff, nodes, List.mem_cons, reduceCtorEq, false_or, ← ih]
    constructor
    · rintro ⟨a', ha, _⟩
      exact ⟨a', ha⟩
    · rintro ⟨a', ha⟩
      exact ⟨a', ha, _, rfl⟩
  | call c =>
    simp only [mapCallsM, Except.exists_bind_eq_ok_iff, nodes, List.mem_singleton, call.injEq, forall_eq]
    constructor
    · rintro ⟨c', hc, _⟩
      exact ⟨c', hc⟩
    · rintro ⟨c', hc⟩
      exact ⟨c', hc, _, rfl⟩
  | empty | one | text | keyword => simp [mapCallsM, nodes, pure, Except.pure]

theorem mapCallsM_eq (hf : ∀ c c', f c = .ok c' → c' = g c) {p p' : Pattern} (h : p.mapCallsM f = .ok p') :
    p' = p.mapCalls g := by
  induction p generalizing p' with
  | seq a b iha ihb | alt a b iha ihb | diff a b iha ihb | list a b iha ihb =>
    obtain ⟨a', ha, h⟩ := Except.bind_eq_ok h
    obtain ⟨b', hb, h⟩ := Except.bind_eq_ok h
    cases h
    rw [mapCalls, iha ha, ihb hb]
  | opt a ih | many a ih | many1 a ih | expect a ih | token a ih | lookahead a ih | notAhead a ih | act _ a ih
  | keywords a _ ih =>
    obtain ⟨a', ha, h⟩ := Except.bind_eq_ok h
    cases h
    rw [mapCalls, ih ha]
  | call c =>
    obtain ⟨c', hc, h⟩ := Except.bind_eq_ok h
    cases h
    rw [mapCalls, hf c c' hc]
  | empty | one | text | keyword => cases h; rfl

end

/-- Calls are replaced by the same ones if the replacements agree on the calls of the pattern. -/
theorem mapCalls_congr {f g : Call → Call} {p : Pattern} (h : ∀ c, p.Has (.call c) → f c = g c) :
    p.mapCalls f = p.mapCalls g := by
  have hbelow : ∀ {q : Pattern}, q ∈ p.children → ∀ c, q.Has (.call c) → f c = g c := fun hq c hc => h c (.child hq hc)
  induction p with
  | seq a b iha ihb | alt a b iha ihb | diff a b iha ihb | list a b iha ihb =>
    have ha := hbelow (q := a) (by simp [children])
    have hb := hbelow (q := b) (by simp [children])
    rw [mapCalls, mapCalls, iha ha fun hq c hc => ha c (.child hq hc), ihb hb fun hq c hc => hb c (.child hq hc)]
  | opt a ih | many a ih | many1 a ih | expect a ih | token a ih | lookahead a ih | notAhead a ih | act _ a ih
  | keywords a _ ih =>
    have ha := hbelow (q := a) (by simp [children])
    rw [mapCalls, mapCalls, ih ha fun hq c hc => ha c (.child hq hc)]
  | call c => rw [mapCalls, mapCalls, h c .self]
  | empty | one | text | keyword => rfl

/-- Targets are not part of the text of a pattern. -/
theorem describe_mapCalls {f : Call → Call} (hf : ∀ c details, (f c).write details = c.write details) (p : Pattern) :
    (p.mapCalls f).describe = p.describe := by
  have hwrite : ∀ details least, (p.mapCalls f).write details least = p.write details least := by
    induction p with
    | seq a b iha ihb | alt a b iha ihb | diff a b iha ihb | list a b iha ihb =>
      intro details least
      simp only [mapCalls, write, iha, ihb]
    | opt a ih | many a ih | many1 a ih | expect a ih | token a ih | lookahead a ih | notAhead a ih | act _ a ih
    | keywords a _ ih =>
      intro details least
      simp only [mapCalls, write, ih]
    | call c => exact fun details _ => hf c details
    | empty | one | text | keyword => exact fun _ _ => rfl
  exact hwrite false 0

end Pattern

end PegFront
