import PegFront.Proofs.Endings
import PegFront.Proofs.Regrouping

/-!
# Lists and repetitions

A list `item % separator` stands for `item (separator item)*`. For patterns that neither run actions nor pass values
both find the same items (`list_expansion`), but they may end at different places: a sequence gives back what was
skipped before an item that matches nothing, a list keeps it. If no item matches nothing, they are the same.
-/

namespace PegFront

variable {V : Type}

/-! ## Plain patterns -/

namespace Pattern

/-- What the evaluation of a pattern of a rule comes to: the nodes of the pattern and of the rules it calls. -/
inductive Involves (rules : Array (Rule V)) : Rule V → Pattern → Rule V → Pattern → Prop
  | self {rule p} : Involves rules rule p rule p
  | child {rule p q rule' n} (hq : q ∈ p.children) (h : Involves rules rule q rule' n) : Involves rules rule p rule' n
  | call {rule c id callee rule' n} (ht : c.target = some id) (hc : rules[id]? = some callee)
      (h : Involves rules callee callee.definition rule' n) : Involves rules rule (.call c) rule' n

/-- The node itself runs no action, turns no miss into an error, and passes nothing to a rule or back. -/
def Bare (rules : Array (Rule V)) (rule : Rule V) : Pattern → Prop
  | .act .. | .expect _ => False
  | .call c => c.arity = 0 ∧ rule.preCall? c.label = none ∧ rule.postCall? c.label = none ∧
      ∀ id callee, c.target = some id → rules[id]? = some callee → callee.hasValue = false
  | _ => True

/-- No actions, hooks, values or expectations in the evaluation of the pattern. -/
def Plain (rules : Array (Rule V)) (rule : Rule V) (p : Pattern) : Prop :=
  ∀ rule' n, Involves rules rule p rule' n → n.Bare rules rule'

section
variable {rules : Array (Rule V)} {rule : Rule V} {p q : Pattern}

theorem Plain.child (h : p.Plain rules rule) (hq : q ∈ p.children) : q.Plain rules rule :=
  fun rule' n hn => h rule' n (.child hq hn)

theorem Plain.left {a b : Pattern} (h : p.Plain rules rule) (hp : p.children = [a, b]) : a.Plain rules rule :=
  h.child (hp ▸ List.mem_cons_self)

theorem Plain.right {a b : Pattern} (h : p.Plain rules rule) (hp : p.children = [a, b]) : b.Plain rules rule :=
  h.child (hp ▸ List.mem_cons_of_mem _ List.mem_cons_self)

theorem Plain.only (h : p.Plain rules rule) (hp : p.children = [q]) : q.Plain rules rule :=
  h.child (hp ▸ List.mem_cons_self)

theorem Plain.bare (h : p.Plain rules rule) : p.Bare rules rule := h rule p .self

theorem Plain.callee {c : Call} {id : RuleId} {callee : Rule V} (h : Plain rules rule (.call c))
    (ht : c.target = some id) (hc : rules[id]? = some callee) : callee.definition.Plain rules callee :=
  fun rule' n hn => h rule' n (.call ht hc hn)

end

end Pattern

namespace Job

/-- The job is about plain patterns. -/
def Plain (rules : Array (Rule V)) : Job V → Prop
  | .pattern owner p _ | .rounds owner p _ _ => p.Plain rules owner
  | .items owner item separator _ => item.Plain rules owner ∧ separator.Plain rules owner
  | .rule id _ => ∀ callee, rules[id]? = some callee → callee.hasValue = false ∧ callee.definition.Plain rules callee
  | .skip _ => True

/-- The context a job begins in, if it is that of its caller. -/
def context? : Job V → Option (Context V)
  | .pattern _ _ ctx | .rounds _ _ _ ctx | .items _ _ _ ctx | .skip ctx => some ctx
  | .rule .. => none

end Job

def Answer.context? : Answer V → Option (Context V)
  | .hit ctx _ | .miss ctx => some ctx
  | .stop => none

namespace Derives

variable {w : World V} {skip : Option RuleId} {job : Job V} {c : Cursor} {r : Answer V}

/-- Plain patterns leave the context as it was. -/
theorem keeps (h : Derives w skip job c r) (hp : job.Plain w.rules) :
    ∀ ctx ctx', job.context? = some ctx → r.context? = some ctx' → ctx = ctx' := by
  induction h with
  -- Nothing runs, or it runs in a context of its own.
  | skip_none | skip_hit | skip_miss | empty | one_hit | one_miss | text_hit | text_miss | keyword_hit | keyword_miss
  | rounds_end | call_miss =>
    rintro ctx ctx' ⟨⟩ ⟨⟩
    rfl
  | call_hit ht _ hc =>
    rintro ctx ctx' ⟨⟩ ⟨⟩
    have hvalue := hp.bare.2.2.2 _ _ ht hc
    unfold Rule.receive
    rw [hvalue]
  | rule_hit | rule_miss | rule_valueless | rule_stop => nofun
  | act_miss | act_pass | act_reject | act_fail | act_stop | expect_hit | expect_miss | expect_stop => exact hp.bare.elim
  | skip_stop | keywords_stop | seq_stop_first | seq_stop_skip | seq_stop_second | alt_stop | diff_stop_subject
  | diff_stop_excluded | list_stop | opt_stop | many1_stop | lookahead_stop | notAhead_stop | call_stop | call_arguments
  | rounds_stop_skip | rounds_stop | items_stop_skip | items_stop_separator | items_stop_between | items_stop =>
    rintro _ _ _ ⟨⟩
  -- One part decides.
  | keywords_hit _ _ ih | keywords_other _ _ ih | keywords_miss _ ih | opt_hit _ ih | opt_miss _ ih | many _ ih
  | many1_miss _ ih | token _ ih | lookahead_hit _ ih | lookahead_miss _ ih | notAhead_hit _ ih | notAhead_miss _ ih =>
    exact ih (hp.only rfl)
  | seq_first _ ih | alt_first _ ih | diff_subject _ ih | list_miss _ ih => exact ih (hp.left rfl)
  | rounds_miss _ _ _ _ ih => exact ih hp
  | items_end _ _ _ ih => exact ih hp.2
  -- One part after the other.
  | seq_hit _ _ _ _ iha _ ihb | seq_empty _ _ _ _ iha _ ihb | seq_second _ _ _ iha _ ihb | alt_second _ _ iha ihb
  | diff_apart _ _ iha ihb | diff_longer _ _ _ iha ihb | diff_excluded _ _ _ iha ihb =>
    rintro ctx ctx' ⟨⟩ hr
    exact (iha (hp.left rfl) _ _ rfl rfl).trans (ihb (hp.right rfl) _ ctx' rfl hr)
  | list_hit _ _ ih ihi =>
    rintro ctx ctx' ⟨⟩ hr
    exact (ih (hp.left rfl) _ _ rfl rfl).trans (ihi ⟨hp.left rfl, hp.right rfl⟩ _ ctx' rfl hr)
  | many1_hit _ _ ih ihr =>
    rintro ctx ctx' ⟨⟩ hr
    exact (ih (hp.only rfl) _ _ rfl rfl).trans (ihr (hp.only rfl) _ ctx' rfl hr)
  | rounds_hit _ _ _ _ _ ih ihr =>
    rintro ctx ctx' ⟨⟩ hr
    exact (ih hp _ _ rfl rfl).trans (ihr hp _ ctx' rfl hr)
  | items_back _ _ _ _ _ ih _ ihi =>
    rintro ctx ctx' ⟨⟩ hr
    exact (ih hp.2 _ _ rfl rfl).trans (ihi hp.1 _ ctx' rfl hr)
  | items_hit _ _ _ _ _ _ ih _ ihi ihr =>
    rintro ctx ctx' ⟨⟩ hr
    exact ((ih hp.2 _ _ rfl rfl).trans (ihi hp.1 _ _ rfl rfl)).trans (ihr hp _ ctx' rfl hr)

/-- At the end of the input a hit goes nowhere. -/
theorem stays {ctx : Context V} {d : Cursor} (h : Derives w skip job c (.hit ctx d)) (hc : c.rest = []) : d = c := by
  obtain ⟨x, hx⟩ := h.spans
  have hrest := hx.rest
  rw [hc] at hrest
  obtain ⟨rfl, -⟩ := List.append_eq_nil_iff.1 hrest.symm
  exact hx.unique .rfl

/-- At the end of the input plain patterns are no error, unless what is skipped is one. -/
theorem no_stop_at_end (h : Derives w skip job c r) (hp : job.Plain w.rules) (hc : c.rest = [])
    (hskip : ∀ ctx, ¬ Derives w skip (.skip ctx) c .stop) : r ≠ .stop := by
  induction h with
  | skip_stop h => exact (hskip .empty (.skip_stop h)).elim
  | act_miss | act_pass | act_reject | act_fail | act_stop | expect_hit | expect_miss | expect_stop => exact hp.bare.elim
  -- Rules
  | rule_valueless hr _ _ hv =>
    rw [(hp _ hr).1] at hv
    cases hv
  | rule_stop hr _ _ ih => exact ih (hp _ hr).2 hc hskip
  | call_stop ht _ h ih =>
    refine ih (fun callee hcallee => ⟨hp.bare.2.2.2 _ _ ht hcallee, hp.callee ht hcallee⟩) hc hskip
  | call_arguments hl =>
    refine (hl ?_).elim
    unfold Rule.argumentsOf
    rw [hp.bare.2.1]
    exact hp.bare.1.symm
  -- One part decides.
  | keywords_stop _ ih | opt_stop _ ih | many1_stop _ ih | lookahead_stop _ ih | notAhead_stop _ ih | many _ ih =>
    exact ih (hp.only rfl) hc hskip
  | seq_stop_first _ ih | alt_stop _ ih | diff_stop_subject _ ih | list_stop _ ih => exact ih (hp.left rfl) hc hskip
  | token _ ih =>
    refine ih (hp.only rfl) hc ?_
    rintro ctx ⟨⟩
  -- One part after the other, all of them here.
  | seq_stop_skip ha hs =>
    obtain rfl := ha.stays hc
    exact (hskip _ hs).elim
  | seq_stop_second ha hs _ _ _ ih =>
    obtain rfl := ha.stays hc
    obtain rfl := hs.stays hc
    exact ih (hp.right rfl) hc hskip
  | alt_second _ _ _ ih | diff_stop_excluded _ _ _ ih => exact ih (hp.right rfl) hc hskip
  | list_hit h _ _ ih =>
    obtain rfl := h.stays hc
    exact ih ⟨hp.left rfl, hp.right rfl⟩ hc hskip
  | many1_hit h _ _ ih =>
    obtain rfl := h.stays hc
    exact ih (hp.only rfl) hc hskip
  | rounds_hit hne | rounds_stop_skip hne | rounds_stop hne => exact (hne hc).elim
  | items_stop_skip hs => exact (hskip _ hs).elim
  | items_stop_separator hs _ _ ih =>
    obtain rfl := hs.stays hc
    exact ih hp.2 hc hskip
  | items_stop_between hs h hs' =>
    obtain rfl := hs.stays hc
    obtain rfl := h.stays hc
    exact (hskip _ hs').elim
  | items_stop hs h hs' _ _ _ _ ih =>
    obtain rfl := hs.stays hc
    obtain rfl := h.stays hc
    obtain rfl := hs'.stays hc
    exact ih hp.1 hc hskip
  | items_hit hs h hs' hi _ _ _ _ _ ih =>
    obtain rfl := hs.stays hc
    obtain rfl := h.stays hc
    obtain rfl := hs'.stays hc
    obtain rfl := hi.stays hc
    exact ih hp hc hskip
  | _ => nofun

/-- One round of a repetition whose body has this answer. -/
theorem rounds_inv {rule : Rule V} {p : Pattern} {first : Bool} {ctx : Context V} {a : Cursor} {body : Answer V}
    (h : Derives w skip (.rounds rule p first ctx) c r) (hc : c.rest ≠ [])
    (hs : Derives w (if first then none else skip) (.skip ctx) c (.hit ctx a))
    (hbody : Derives w skip (.pattern rule p ctx) a body) :
    (∀ ctx', body = .miss ctx' → r = .hit ctx' c) ∧ (body = .stop → r = .stop) ∧
      ∀ ctx' d, body = .hit ctx' d → Derives w skip (.rounds rule p false ctx') d r := by
  refine ⟨?_, ?_, ?_⟩
  · rintro ctx' rfl
    exact h.unique (.rounds_miss hc hs hbody)
  · rintro rfl
    exact h.unique (.rounds_stop hc hs hbody)
  · rintro ctx' d rfl
    cases h with
    | rounds_end hend => exact (hc hend).elim
    | rounds_hit _ hs' h' hr =>
      cases hs.unique hs'
      cases hbody.unique h'
      exact hr
    | rounds_miss _ hs' h' | rounds_stop _ hs' h' =>
      cases hs.unique hs'
      cases hbody.unique h'
    | rounds_stop_skip _ hs' => cases hs.unique hs'

end Derives

/-! ## Items and rounds -/

/-- What is needed of an item, a separator and what is skipped to compare a list with its expansion. -/
structure Separates (w : World V) (skip : Option RuleId) (rule : Rule V) (item separator : Pattern) (ctx : Context V)
    (i : Input) : Prop where
  plainItem : item.Plain w.rules rule
  plainSeparator : separator.Plain w.rules rule
  full : ∀ c d, c.In i → Derives w skip (.pattern rule separator ctx) c (.hit ctx d) → d.offset ≠ c.offset
  again : ∀ c d, c.In i → Derives w skip (.skip ctx) c (.hit ctx d) → Derives w skip (.skip ctx) d (.hit ctx d)
  atEnd : ∀ c, c.In i → c.rest = [] → ¬ Derives w skip (.skip ctx) c .stop

/-- The places are the same, or from the first one something is skipped up to the second one, where an item matches
nothing. -/
def Trails (w : World V) (skip : Option RuleId) (rule : Rule V) (item : Pattern) (ctx : Context V) (c d : Cursor) : Prop :=
  c = d ∨ Derives w skip (.skip ctx) c (.hit ctx d) ∧ Derives w skip (.pattern rule item ctx) d (.hit ctx d)

/-- The next round of the repetition at `c` begins where the next separator of the list at `d` is looked for. -/
def Abreast (w : World V) (skip : Option RuleId) (rule : Rule V) (item : Pattern) (ctx : Context V) (first : Bool)
    (c d : Cursor) : Prop :=
  if first then Derives w skip (.skip ctx) d (.hit ctx c) else Trails w skip rule item ctx c d

/-- A list at `d` and a repetition at `c` come to the same: both fail, or both find nothing more and stay, or both
find more and end as `Trails` says. -/
def Agree (w : World V) (skip : Option RuleId) (rule : Rule V) (item : Pattern) (ctx : Context V) (c d : Cursor)
    (r r' : Answer V) : Prop :=
  (r = .stop ∧ r' = .stop) ∨ ∃ d' c', r = .hit ctx d' ∧ r' = .hit ctx c' ∧
    ((c' = c ∧ d' = d) ∨ (Trails w skip rule item ctx c' d' ∧ c.offset < c'.offset))

namespace Separates

variable {w : World V} {skip : Option RuleId} {rule : Rule V} {item separator : Pattern} {ctx : Context V} {i : Input}
  {first : Bool} {a c d : Cursor} {r r' : Answer V}
  (H : Separates w skip rule item separator ctx i)
include H

/-- At the end of the input there is no separator. -/
theorem misses (ha : a.In i) (hend : a.rest = []) (h : Derives w skip (.pattern rule separator ctx) a r) :
    r = .miss ctx := by
  have hkeeps := h.keeps H.plainSeparator
  cases r with
  | hit ctx' d =>
    obtain rfl := hkeeps _ _ rfl rfl
    obtain rfl := h.stays hend
    exact (H.full _ _ ha h rfl).elim
  | miss ctx' =>
    obtain rfl := hkeeps _ _ rfl rfl
    rfl
  | stop =>
    refine (h.no_stop_at_end H.plainSeparator hend (fun ctx' h' => H.atEnd a ha hend ?_) rfl).elim
    cases h' with
    | skip_stop h' => exact .skip_stop h'

theorem begins (hc : c.In i) (hplace : Abreast w skip rule item ctx first c d)
    (hs : Derives w skip (.skip ctx) d (.hit ctx a)) :
    Derives w (if first then none else skip) (.skip ctx) c (.hit ctx a) := by
  cases first with
  | true =>
    cases hs.unique hplace
    exact .skip_none
  | false =>
    rcases hplace with rfl | ⟨hs', -⟩
    · exact hs
    · cases hs.unique (H.again _ _ hc hs')
      exact hs'

/-- As long as there are separators the repetition is not at the end either. -/
theorem not_at_end (hc : c.In i) (hplace : Abreast w skip rule item ctx first c d)
    (hs : Derives w skip (.skip ctx) d (.hit ctx a)) (h : Derives w skip (.pattern rule separator ctx) a r)
    (hr : r ≠ .miss ctx) : c.rest ≠ [] := by
  intro hend
  obtain rfl := (H.begins hc hplace hs).stays hend
  exact hr (H.misses hc hend h)

/-- The items of a list and the rounds of its expansion, from places abreast. -/
theorem items_rounds (hi : Derives w skip (.items rule item separator ctx) d r) (hd : d.In i)
    (hr : Derives w skip (.rounds rule (.seq separator item) first ctx) c r') (hc : c.In i)
    (hplace : Abreast w skip rule item ctx first c d) : Agree w skip rule item ctx c d r r' := by
  generalize hjob : Job.items rule item separator ctx = job at hi
  induction hi generalizing first c r' with
  | items_end hs h =>
    cases hjob
    obtain rfl := h.keeps H.plainSeparator _ _ rfl rfl
    refine .inr ⟨_, c, rfl, ?_, .inl ⟨rfl, rfl⟩⟩
    by_cases hend : c.rest = []
    · exact hr.unique (.rounds_end hend)
    · exact (hr.rounds_inv hend (H.begins hc hplace hs) (.seq_first h)).1 _ rfl
  | items_back hs h hs' hi =>
    cases hjob
    obtain rfl := h.keeps H.plainSeparator _ _ rfl rfl
    obtain rfl := hi.keeps H.plainItem _ _ rfl rfl
    have hend := H.not_at_end hc hplace hs h nofun
    have hround := hr.rounds_inv hend (H.begins hc hplace hs) (.seq_second h hs' hi)
    exact .inr ⟨_, c, rfl, hround.1 _ rfl, .inl ⟨rfl, rfl⟩⟩
  | @items_hit skip rule item separator ctx ctx₁ ctx₂ d a b e f r hs h hs' hi _ _ _ _ _ ih =>
    cases hjob
    obtain rfl := h.keeps H.plainSeparator _ _ rfl rfl
    obtain rfl := hi.keeps H.plainItem _ _ rfl rfl
    have hend := H.not_at_end hc hplace hs h nofun
    have hbegins := H.begins hc hplace hs
    obtain ⟨x, hca⟩ := hbegins.spans
    obtain ⟨y, hab⟩ := h.spans
    obtain ⟨z, hbe⟩ := hs'.spans
    obtain ⟨u, hef⟩ := hi.spans
    have ha := hca.inside hc
    have hb := hab.inside ha
    have he := hbe.inside hb
    have hf := hef.inside he
    have hfull := H.full a b ha h
    have hoffsets := And.intro hca.offset (And.intro hab.offset (And.intro hbe.offset hef.offset))
    -- The repetition goes on at `c'`, the list at `f`.
    have next : ∀ c', c'.In i → c.offset < c'.offset → Trails w skip rule item ctx c' f →
        Derives w skip (.rounds rule (.seq separator item) false ctx) c' r' → Agree w skip rule item ctx c d r r' := by
      intro c' hc' hlt htrails hrounds
      rcases ih H hf hrounds hc' htrails rfl with hstop | ⟨d', c'', hr, hr', ⟨rfl, rfl⟩ | ⟨htrails', hlt'⟩⟩
      · exact .inl hstop
      · exact .inr ⟨_, _, hr, hr', .inr ⟨htrails, hlt⟩⟩
      · exact .inr ⟨_, _, hr, hr', .inr ⟨htrails', Nat.lt_trans hlt hlt'⟩⟩
    by_cases hempty : f.offset = e.offset
    · obtain rfl := hf.eq_of_offset he hempty
      have hround := hr.rounds_inv hend hbegins (.seq_empty h hs' hi hempty)
      exact next b hb (by omega) (.inr ⟨hs', hi⟩) (hround.2.2 _ _ rfl)
    · have hround := hr.rounds_inv hend hbegins (.seq_hit h hs' hi hempty)
      exact next f hf (by omega) (.inl rfl) (hround.2.2 _ _ rfl)
  | items_stop_skip hs =>
    cases hjob
    refine .inl ⟨rfl, ?_⟩
    cases first with
    | true => cases hs.unique hplace
    | false =>
      rcases hplace with rfl | ⟨hs', -⟩
      · exact hr.unique (.rounds_stop_skip (fun hend => H.atEnd _ hc hend hs) hs)
      · cases hs.unique (H.again _ _ hc hs')
  | items_stop_separator hs h =>
    cases hjob
    have hend := H.not_at_end hc hplace hs h nofun
    exact .inl ⟨rfl, (hr.rounds_inv hend (H.begins hc hplace hs) (.seq_stop_first h)).2.1 rfl⟩
  | items_stop_between hs h hs' =>
    cases hjob
    have hend := H.not_at_end hc hplace hs h nofun
    exact .inl ⟨rfl, (hr.rounds_inv hend (H.begins hc hplace hs) (.seq_stop_skip h hs')).2.1 rfl⟩
  | items_stop hs h hs' hi =>
    cases hjob
    have hend := H.not_at_end hc hplace hs h nofun
    exact .inl ⟨rfl, (hr.rounds_inv hend (H.begins hc hplace hs) (.seq_stop_second h hs' hi)).2.1 rfl⟩
  | _ => cases hjob

theorem items_many (hi : Derives w skip (.items rule item separator ctx) d r) (hd : d.In i)
    (hs : Derives w skip (.skip ctx) d (.hit ctx c))
    (h : Derives w skip (.pattern rule (.many (.seq separator item)) ctx) c r') :
    Agree w skip rule item ctx c d r r' := by
  obtain ⟨x, hx⟩ := hs.spans
  cases h with
  | many hr => exact H.items_rounds hi hd hr (hx.inside hd) (show Abreast w skip rule item ctx true c d from hs)

/-- A list and its expansion. -/
theorem list (hc : c.In i) (h : Derives w skip (.pattern rule (.list item separator) ctx) c r)
    (h' : Derives w skip (.pattern rule (.seq item (.many (.seq separator item))) ctx) c r') :
    (r = .stop ∧ r' = .stop) ∨ (r = .miss ctx ∧ r' = .miss ctx) ∨
      ∃ d d', r = .hit ctx d ∧ r' = .hit ctx d' ∧ Trails w skip rule item ctx d' d := by
  cases h with
  | list_stop h => exact .inl ⟨rfl, h'.unique (.seq_stop_first h)⟩
  | list_miss h =>
    obtain rfl := h.keeps H.plainItem _ _ rfl rfl
    exact .inr (.inl ⟨rfl, h'.unique (.seq_first h)⟩)
  | list_hit h hi =>
    obtain rfl := h.keeps H.plainItem _ _ rfl rfl
    obtain ⟨x, hx⟩ := h.spans
    have hd := hx.inside hc
    cases h' with
    | seq_first ha | seq_stop_first ha => cases h.unique ha
    | seq_stop_skip ha hs =>
      cases h.unique ha
      exact .inl ⟨hi.unique (.items_stop_skip hs), rfl⟩
    | seq_hit ha hs hb hne =>
      cases h.unique ha
      rcases H.items_many hi hd hs hb with ⟨-, hstop⟩ | ⟨d', c', hr, hr', ⟨rfl, rfl⟩ | ⟨htrails, -⟩⟩
      · cases hstop
      · cases hr'
        exact (hne rfl).elim
      · cases hr'
        exact .inr (.inr ⟨_, _, hr, rfl, htrails⟩)
    | seq_empty ha hs hb hempty =>
      -- The repetition found nothing, and the sequence goes back to the first item.
      cases h.unique ha
      rcases H.items_many hi hd hs hb with ⟨-, hstop⟩ | ⟨d', c', hr, hr', ⟨rfl, rfl⟩ | ⟨-, hlt⟩⟩
      · cases hstop
      · cases hr'
        exact .inr (.inr ⟨_, _, hr, rfl, .inl rfl⟩)
      · cases hr'
        exact (Nat.ne_of_gt hlt hempty).elim
    | seq_second ha hs hb =>
      cases h.unique ha
      rcases H.items_many hi hd hs hb with ⟨-, hstop⟩ | ⟨d', c', -, hr', -⟩
      · cases hstop
      · cases hr'
    | seq_stop_second ha hs hb =>
      cases h.unique ha
      rcases H.items_many hi hd hs hb with ⟨hstop, -⟩ | ⟨d', c', -, hr', -⟩
      · exact .inl ⟨hstop, rfl⟩
      · cases hr'

end Separates

/-! ## Runs -/

/-- A list and its expansion come to the same, unless the last item of the list matches nothing behind something that
was skipped: the list then ends there, the expansion where it was skipped from. -/
theorem list_expansion {r : Registry V} {d : Domain V} (h : r.link = .ok d) {s : State V}
    (hs : s.scanner.cursor.In s.scanner.input) (hready : SkipReady d.rules s) (hidem : SkipIdempotent d.rules s)
    (hend : ∀ c e t, c.In s.scanner.input → c.rest = [] → ¬ SkipEnds d.rules (s.moveTo c) (.error e) t)
    {rule : Rule V} {item separator : Pattern} (hitem : item.Linked d.rules rule)
    (hseparator : separator.Linked d.rules rule) (hplain : item.Plain d.rules rule)
    (hplain' : separator.Plain d.rules rule)
    (hfull : ∀ c t, c.In s.scanner.input → ¬ separator.Ends d.rules rule (s.moveTo c) (.ok (.hit 0)) t)
    {result result' : Except ParseError Match} {t t' : State V}
    (hlist : Pattern.Ends d.rules rule (.list item separator) s result t)
    (hexpansion : Pattern.Ends d.rules rule (.seq item (.many (.seq separator item))) s result' t') :
    (∃ e e', result = .error e ∧ result' = .error e') ∨
    (result = .ok .miss ∧ result' = .ok .miss ∧ t.scanner.cursor = t'.scanner.cursor) ∨
    ∃ n n', result = .ok (.hit n) ∧ result' = .ok (.hit n') ∧
      (n = n' ∧ t.scanner.cursor = t'.scanner.cursor ∨
        n' < n ∧ SkipEnds d.rules (s.moveTo t'.scanner.cursor) (.ok ()) (s.moveTo t.scanner.cursor) ∧
          ∃ u, item.Ends d.rules rule (s.moveTo t.scanner.cursor) (.ok (.hit 0)) u) := by
  have hw := (Registry.linked h).rules
  have hskip := hready.canSkip
  have hat := State.at_cursor d.rules hs
  have hmoved : ∀ {c}, c.In s.scanner.input → At (s.world d.rules) s.scanner.skipsWith s.context c (s.moveTo c) :=
    fun hc => hat.move (.moveTo s _) hc rfl rfl
  have H : Separates (s.world d.rules) s.scanner.skipsWith rule item separator s.context s.scanner.input := by
    refine ⟨hplain, hplain', ?_, ?_, ?_⟩
    · intro c e hc hd hempty
      obtain ⟨t, ht⟩ := hd.ends_hit hw hskip hseparator (hmoved hc)
      rw [hempty, Nat.sub_self] at ht
      exact hfull c t hc ht
    · intro c e hc hd
      obtain ⟨x, hx⟩ := hd.spans
      exact hidem.stays hw hready hs hc hd (hx.inside hc)
    · intro c hc hrest hstop
      obtain ⟨e, t, ht⟩ := hstop.skip_fails hw hskip (hmoved hc)
      exact hend c e t hc hrest ht
  have hlinked : Pattern.Linked d.rules rule (.list item separator) := ⟨hitem, hseparator⟩
  have hlinked' : Pattern.Linked d.rules rule (.seq item (.many (.seq separator item))) := ⟨hitem, hseparator, hitem⟩
  rcases hlist.derives hw hskip hlinked hat with ⟨e, rfl, hd⟩ | ⟨a, m, rfl, hd, hmeets⟩ <;>
    rcases hexpansion.derives hw hskip hlinked' hat with ⟨e', rfl, hd'⟩ | ⟨a', m', rfl, hd', hmeets'⟩ <;>
    rcases H.list hs hd hd' with ⟨hr, hr'⟩ | ⟨hr, hr'⟩ | ⟨p, p', hr, hr', htrails⟩ <;> cases hr <;> cases hr'
  · exact .inl ⟨e, e', rfl, rfl⟩
  · exact hmeets'.elim
  · exact hmeets.elim
  · exact hmeets.elim
  · obtain ⟨rfl, hreaches⟩ := hmeets
    obtain ⟨rfl, hreaches'⟩ := hmeets'
    exact .inr (.inl ⟨rfl, rfl, hreaches.cursor.trans hreaches'.cursor.symm⟩)
  · obtain ⟨rfl, hreaches⟩ := hmeets
    obtain ⟨rfl, hreaches'⟩ := hmeets'
    obtain rfl := hreaches.cursor
    obtain rfl := hreaches'.cursor
    refine .inr (.inr ⟨_, _, rfl, rfl, ?_⟩)
    rcases htrails with heq | ⟨hskipped, hempty⟩
    · exact .inl ⟨by rw [heq], heq.symm⟩
    have hplace := hreaches.input ▸ hreaches.place
    have hplace' := hreaches'.input ▸ hreaches'.place
    obtain ⟨x, hx⟩ := hskipped.spans
    have hoffset := hx.offset
    have hle := hreaches'.le
    by_cases hsame : t.scanner.cursor.offset = t'.scanner.cursor.offset
    · have heq := hplace.eq_of_offset hplace' hsame
      exact .inl ⟨by rw [heq], heq⟩
    · obtain ⟨u, hu⟩ := hempty.ends_hit hw hskip hitem (hmoved hplace)
      rw [Nat.sub_self] at hu
      refine .inr ⟨by omega, ?_, u, hu⟩
      exact (skipEnds_iff hw hskip (hmoved hplace')).2 ⟨_, hskipped, rfl⟩

/-- Neither an action nor a call nor an expectation. -/
def Pattern.isOperator : Pattern → Bool
  | .act .. | .call _ | .expect _ => false
  | _ => true

theorem Pattern.plain_of_operators {rules : Array (Rule V)} {rule : Rule V} {p : Pattern}
    (h : p.nodes.all isOperator = true) : p.Plain rules rule := by
  intro rule' n hn
  induction hn with
  | @self _ p =>
    have hp := List.all_eq_true.1 h p (self_mem_nodes p)
    cases p with
    | act | call | expect => cases hp
    | _ => trivial
  | child hq _ ih => exact ih (List.all_eq_true.2 fun n hn => List.all_eq_true.1 h n (nodes_subset hq hn))
  | call => cases h

/-- To skip as many chars of a kind as there are is no error. -/
theorem skip_many_one_succeeds {rules : Array (Rule V)} {s : State V}
    (hw : ∀ (id : RuleId) rule, rules[id]? = some rule → rule.definition.Linked rules rule)
    (hs : s.scanner.cursor.In s.scanner.input) (hready : SkipReady rules s) {id : RuleId} {spaces : Rule V}
    {kind : CharKind} (hid : s.scanner.skipRule = some id) (hspaces : rules[id]? = some spaces)
    (hvalue : spaces.hasValue = false) (hdef : spaces.definition = .many (.one kind)) {c : Cursor}
    (hc : c.In s.scanner.input) (hend : c.rest = []) (e : ParseError) (t : State V) :
    ¬ SkipEnds rules (s.moveTo c) (.error e) t := by
  rintro ⟨fuel, hout⟩
  have hat := (State.at_cursor rules hs).moveTo hc
  have hstop := (wp_error (continues_skip (invokesAs hw fuel) hready.canSkip hat) hout).resolve_left nofun
  generalize hskip : s.scanner.skipsWith = skip at hstop
  cases hstop with
  | skip_stop h =>
    obtain rfl := Option.some.inj ((Scanner.skipsWith_eq_some hskip).1.symm.trans hid)
    refine h.no_stop_at_end (fun callee hcallee => ?_) hend (by rintro ctx ⟨⟩) rfl
    obtain rfl := Option.some.inj (hspaces.symm.trans hcallee)
    exact ⟨hvalue, hdef ▸ Pattern.plain_of_operators rfl⟩

theorem Pattern.exists_ends {rules : Array (Rule V)} {rule : Rule V} {p : Pattern} {s : State V} {m : Match} (fuel : Nat)
    (h : (outcome (p.run rules fuel (Engine.invoke rules fuel) rule) s).1.toOption = some m) :
    ∃ t, p.Ends rules rule s (.ok m) t := by
  rcases hout : outcome (p.run rules fuel (Engine.invoke rules fuel) rule) s with ⟨e | m', t⟩
  · rw [hout] at h
    cases h
  · rw [hout] at h
    cases h
    exact ⟨t, fuel, hout⟩

/-- A grammar that skips spaces. -/
def spaced : Registry Unit where
  grammars := [{
    name := "G"
    rules := [{ name := "S", definition := .char 'a' }, { name := "Spaces", definition := .many (.one .space) }]
    start := some "S"
    skip := some "Spaces" }]
  index := [("G", 0)]

/-- What the comparison of a list with its expansion needs to know of the grammar. -/
theorem spaced_skips {d : Domain Unit} {g : Grammar} (h : spaced.link = .ok d) (hg : d.grammars = [g]) (source : String) :
    let s := Domain.startState g source {} .empty
    s.scanner.cursor.In s.scanner.input ∧ SkipReady d.rules s ∧ SkipIdempotent d.rules s ∧
      ∀ c e t, c.In s.scanner.input → c.rest = [] → ¬ SkipEnds d.rules (s.moveTo c) (.error e) t := by
  have hd := Registry.linked h
  have hs := (sound_startState (V := Unit) g source {} .empty).cursor
  have hready := hd.skipReady (hg ▸ List.mem_cons_self) source {} .empty
  cases (show spaced.link = .ok _ from rfl).symm.trans h
  cases hg
  exact ⟨hs, hready, .of_many_one hd.rules hs rfl rfl rfl rfl rfl,
    fun c e t hc hend => skip_many_one_succeeds hd.rules hs hready rfl rfl rfl rfl hc hend e t⟩

/-- Two letters with a space between them. -/
theorem list_expansion_letters :
    let item := Pattern.opt (.char 'a')
    let separator := Pattern.char ','
    let rule : Rule Unit := .new "R" .empty
    ∃ d g, spaced.link = .ok d ∧ d.grammars = [g] ∧
      let s := Domain.startState g "a, a" {} .empty
      ∃ t t', Pattern.Ends d.rules rule (.list item separator) s (.ok (.hit 4)) t ∧
        Pattern.Ends d.rules rule (.seq item (.many (.seq separator item))) s (.ok (.hit 4)) t' ∧
        t.scanner.cursor = t'.scanner.cursor := by
  intro item separator rule
  have same : ∀ (d : Domain Unit) (g : Grammar), spaced.link = .ok d → d.grammars = [g] →
      let s := Domain.startState g "a, a" {} .empty
      (∃ t, Pattern.Ends d.rules rule (.list item separator) s (.ok (.hit 4)) t) →
      (∃ t', Pattern.Ends d.rules rule (.seq item (.many (.seq separator item))) s (.ok (.hit 4)) t') →
      ∃ t t', Pattern.Ends d.rules rule (.list item separator) s (.ok (.hit 4)) t ∧
        Pattern.Ends d.rules rule (.seq item (.many (.seq separator item))) s (.ok (.hit 4)) t' ∧
        t.scanner.cursor = t'.scanner.cursor := by
    rintro d g h hg s ⟨t, ht⟩ ⟨t', ht'⟩
    obtain ⟨hs, hready, hidem, hend⟩ := spaced_skips h hg "a, a"
    refine ⟨t, t', ht, ht', ?_⟩
    have hitem : item.Linked d.rules rule := trivial
    have hseparator : separator.Linked d.rules rule := trivial
    rcases list_expansion h hs hready hidem hend hitem hseparator (Pattern.plain_of_operators rfl)
      (Pattern.plain_of_operators rfl) (fun _ _ _ => Pattern.one_not_empty) ht ht' with
      ⟨e, e', he, -⟩ | ⟨hmiss, -⟩ | ⟨n, n', hn, hn', ⟨-, hcursor⟩ | ⟨hlt, -⟩⟩
    · cases he
    · cases hmiss
    · exact hcursor
    · cases hn
      cases hn'
      exact (Nat.lt_irrefl 4 hlt).elim
  exact ⟨_, _, rfl, rfl, same _ _ rfl rfl (Pattern.exists_ends 6 (by decide +kernel))
    (Pattern.exists_ends 6 (by decide +kernel))⟩

/-- The last item is missing, and the list keeps the space before it. -/
theorem list_keeps_space :
    let item := Pattern.opt (.char 'a')
    let separator := Pattern.char ','
    let rule : Rule Unit := .new "R" .empty
    ∃ d g, spaced.link = .ok d ∧ d.grammars = [g] ∧
      let s := Domain.startState g "a, " {} .empty
      (item.Plain d.rules rule ∧ separator.Plain d.rules rule ∧
        ∀ c t, ¬ separator.Ends d.rules rule (s.moveTo c) (.ok (.hit 0)) t) ∧
      (s.scanner.cursor.In s.scanner.input ∧ SkipReady d.rules s ∧ SkipIdempotent d.rules s ∧
        ∀ c e t, c.In s.scanner.input → c.rest = [] → ¬ SkipEnds d.rules (s.moveTo c) (.error e) t) ∧
      (∃ t, Pattern.Ends d.rules rule (.list item separator) s (.ok (.hit 3)) t) ∧
      ∃ t, Pattern.Ends d.rules rule (.seq item (.many (.seq separator item))) s (.ok (.hit 2)) t := by
  intro item separator rule
  exact ⟨_, _, rfl, rfl,
    ⟨Pattern.plain_of_operators rfl, Pattern.plain_of_operators rfl, fun _ _ => Pattern.one_not_empty⟩,
    spaced_skips rfl rfl "a, ", Pattern.exists_ends 6 (by decide +kernel), Pattern.exists_ends 6 (by decide +kernel)⟩

end PegFront
