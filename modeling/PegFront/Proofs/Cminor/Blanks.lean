import PegFront.Proofs.Skipping
import PegFront.Proofs.Cminor.Table

/-!
# Skipping in the linked rules

The linked rules hold the lexical grammar (`table_houses`), so their skip rule passes over gaps.
-/

namespace PegFront.Cminor

open Cursor

/-! ## The rules of the lexical grammar -/

/-- Where a call of a rule goes. -/
def placeOf (name : String) : RuleId := idOf (calledName name)

theorem aimed_eq (p : Pattern) : aimed p = Lexical.aim placeOf p := by
  have haim (f : Call → Call) (p : Pattern) : Id.run (p.mapCallsM fun c => pure (f c)) = p.mapCalls f := by
    induction p with
    | seq a b iha ihb | alt a b iha ihb | diff a b iha ihb | list a b iha ihb =>
      rw [Pattern.mapCalls, ← iha, ← ihb]
      rfl
    | opt a ih | many a ih | many1 a ih | expect a ih | token a ih | lookahead a ih | notAhead a ih | act _ a ih
    | keywords a _ ih =>
      rw [Pattern.mapCalls, ← ih]
      rfl
    | empty | one | text | keyword | call => rfl
  exact haim (Call.aim fun c => placeOf c.rule) p

section
variable {w : World Value} {skip : Option RuleId} {c : Cursor} {r : Answer Value} {name : String} {p : Pattern}

/-- A rule of the lexical grammar, linked. -/
def lexical (name : String) (p : Pattern) : Rule Value := linked Lexical.grammarName (.new name p)

theorem table_lexical (h : Rule.new name p ∈ (Lexical.grammar : GrammarDecl Value).rules) :
    table[idOf name]? = some (lexical name p) :=
  table_idOf Lexical.grammar (by rw [registry_grammars]; exact List.mem_cons_self) _ h

theorem calledName_lexical (h : Rule.new name p ∈ (Lexical.grammar : GrammarDecl Value).rules) :
    calledName name = name := by
  have hall : ∀ rule ∈ (Lexical.grammar : GrammarDecl Value).rules, calledName rule.name = rule.name := by
    simp only [Lexical.grammar, List.forall_mem_cons]
    decide
  exact hall _ h

theorem table_houses : Lexical.Houses table placeOf := by
  intro name p h
  rw [placeOf, calledName_lexical h, table_lexical h, lexical, linked, aimed_eq]
  rfl

theorem lexical_rule (hw : w.rules = table) (h : Rule.new name p ∈ (Lexical.grammar : GrammarDecl Value).rules)
    (hd : Derives w skip (.pattern (lexical name p) (aimed p) ⟨[], none, c.offset⟩) c r) :
    Derives w skip (.rule (idOf name) []) c r :=
  .rule_plain (hw ▸ table_lexical h) rfl rfl hd

theorem lexical_call (hw : w.rules = table) (h : Rule.new name p ∈ (Lexical.grammar : GrammarDecl Value).rules)
    (hn : calledName name = name) {caller : Rule Value} (hc : caller.preCall? name = none) {ctx : Context Value}
    (hd : Derives w skip (.pattern (lexical name p) (aimed p) ⟨[], none, c.offset⟩) c r) :
    Derives w skip (.pattern caller (aimed (.rule name)) ctx) c (r.resume ctx) := by
  have ht : (⟨name, name, 0, some (idOf (calledName name))⟩ : Call).target = some (idOf name) := by rw [hn]
  have ha : caller.argumentsOf ⟨name, name, 0, some (idOf (calledName name))⟩ ctx = [] := by
    simp only [Rule.argumentsOf, hc]
  exact .call_plain ht (hw ▸ table_lexical h) ha rfl rfl (lexical_rule hw h hd)

theorem lexical_call_hit (hw : w.rules = table) (h : Rule.new name p ∈ (Lexical.grammar : GrammarDecl Value).rules)
    (hn : calledName name = name) {caller : Rule Value} (hc : caller.preCall? name = none) {ctx : Context Value}
    {d : Cursor} (hd : Derives w skip (.pattern (lexical name p) (aimed p) ⟨[], none, c.offset⟩) c
      (.hit ⟨[], none, c.offset⟩ d)) :
    Derives w skip (.pattern caller (aimed (.rule name)) ctx) c (.hit ctx d) :=
  lexical_call hw h hn hc hd

end

/-! ## Skipping -/

section
variable {w : World Value} {c d : Cursor} {ctx : Context Value}

theorem blanks_eq : blanks = some (placeOf "spaces_and_comments") := rfl

theorem houses (hw : w.rules = table) : Lexical.Houses w.rules placeOf := hw ▸ table_houses

/-- Skipping passes over the gap that begins here. -/
theorem skip_blanks (hw : w.rules = table) (ctx : Context Value) (c : Cursor) :
    (∃ d, Derives w blanks (.skip ctx) c (.hit ctx d) ∧ afterGap c.rest = some d.rest) ∨
    Derives w blanks (.skip ctx) c .stop ∧ afterGap c.rest = none := by
  rw [blanks_eq]
  exact Lexical.skip_blanks (houses hw) ctx c

/-- What a skip leaves. -/
theorem afterGap_of_skip (hw : w.rules = table) {ctx' : Context Value}
    (h : Derives w blanks (.skip ctx) c (.hit ctx' d)) : afterGap c.rest = some d.rest := by
  rw [blanks_eq] at h
  exact Lexical.afterGap_of_skip (houses hw) h

/-- A skip over a text that is left behind. -/
theorem skip_of_afterGap (hw : w.rules = table) {x : List Char} (hc : c.Spans x d) (ctx : Context Value)
    (h : afterGap c.rest = some d.rest) : Derives w blanks (.skip ctx) c (.hit ctx d) := by
  rw [blanks_eq]
  exact Lexical.skip_of_afterGap (houses hw) hc ctx h

/-- A skip over a gap. -/
theorem skip_gap (hw : w.rules = table) {g : List Char} (hg : Gap g) (hc : c.Spans g d) (hd : Solid d.rest)
    (ctx : Context Value) : Derives w blanks (.skip ctx) c (.hit ctx d) :=
  skip_of_afterGap hw hc ctx (by rw [hc.rest]; exact hg d.rest hd)

end

theorem table_linked (id : RuleId) (rule : Rule Value) (h : table[id]? = some rule) :
    rule.definition.Linked table rule := by
  obtain ⟨d, hd, -⟩ := exists_domain
  have htab := domain_tabulated
  rw [hd] at htab
  rw [← rules_eq_table hd htab] at h ⊢
  exact (Registry.linked (link_of_domain hd)).rules id rule h

/-- A skip ends after the gap that begins here, with nothing noted, or it fails at a comment that is not closed. -/
theorem wp_skip {w : World Value} (hw : w.rules = table) {s : State Value} {ctx : Context Value} {c : Cursor}
    (hs : At w blanks ctx c s) (fuel : Nat) :
    wp (Engine.skip (Engine.invoke table fuel))
      (fun _ t => ∃ d, afterGap c.rest = some d.rest ∧ Reaches w blanks s ctx d t ∧
        t.scanner.farthest = s.scanner.farthest ∧ t.scanner.expected = s.scanner.expected)
      (fun e _ => e = .exhausted ∨ afterGap c.rest = none ∧ e = .error (unclosed s.scanner.input)) s := by
  rw [blanks_eq] at hs ⊢
  exact hw ▸ Lexical.wp_skip (houses hw) (hw ▸ table_linked) hs fuel

end PegFront.Cminor
