import PegFront.Proofs.Place
import PegFront.Proofs.Typing

/-!
# Derivations

What a run comes to, told without fuel, stack, notes and trace. `Derives w skip job c r` says that the job,
taken up at the place `c`, ends in the answer `r`: a hit with the context and the place it ends at, a miss with
the context it leaves, or an error, of which nothing more is said. There is one constructor for each way an
operator can end. `skip` is the rule that may be skipped with; there is none inside a token or inside the skip
rule itself.
-/

namespace PegFront

variable {V : Type}

/-! ## Places -/

/-- The text `x` stands between two places. -/
structure Cursor.Spans (c : Cursor) (x : List Char) (d : Cursor) : Prop where
  rest : c.rest = x ++ d.rest
  offset : d.offset = c.offset + Text.byteLength x

namespace Cursor

variable {c d e : Cursor} {x y : List Char}

theorem Spans.rfl : c.Spans [] c := ⟨Eq.refl _, Eq.refl _⟩

theorem Spans.trans (h : c.Spans x d) (h' : d.Spans y e) : c.Spans (x ++ y) e where
  rest := by rw [h.rest, h'.rest, List.append_assoc]
  offset := by rw [h'.offset, h.offset, Text.byteLength_append, Nat.add_assoc]

theorem spans_append : c.Spans (x ++ y) e ↔ ∃ d, c.Spans x d ∧ d.Spans y e := by
  constructor
  · intro h
    refine ⟨⟨c.offset + Text.byteLength x, y ++ e.rest⟩, ⟨by rw [h.rest, List.append_assoc], Eq.refl _⟩, Eq.refl _, ?_⟩
    rw [h.offset, Text.byteLength_append, Nat.add_assoc]
  · rintro ⟨d, h, h'⟩
    exact h.trans h'

theorem Spans.unique (h : c.Spans x d) (h' : c.Spans x e) : d = e := by
  obtain ⟨o, t⟩ := d
  obtain ⟨o', t'⟩ := e
  obtain rfl : o = o' := h.offset.trans h'.offset.symm
  obtain rfl : t = t' := List.append_cancel_left (h.rest.symm.trans h'.rest)
  rfl

theorem Spans.next {ch : Char} (h : c.next? = some (ch, d)) : c.Spans [ch] d := by
  unfold next? at h
  split at h
  · cases h
  · next hr =>
    cases h
    exact ⟨hr, by simp [Text.byteLength]⟩

theorem Spans.after {literal : List Char} (h : c.after? literal = some d) : c.Spans literal d := by
  induction literal generalizing c with
  | nil =>
    obtain rfl : c = d := by simpa [after?] using h
    exact .rfl
  | cons ch literal ih =>
    unfold after? at h
    cases hr : c.rest with
    | nil => simp [hr] at h
    | cons ch' rest =>
      simp only [hr] at h
      split at h
      · next he =>
        subst he
        exact (Spans.next (by rw [next?, hr])).trans (ih h)
      · cases h

theorem Spans.inside {i : Input} (h : c.Spans x d) (hc : c.In i) : d.In i where
  start_le := by rw [h.offset]; exact Nat.le_add_right_of_le hc.start_le
  slice := by
    obtain ⟨before, after, htext, hbefore, hstop⟩ := Text.slice?_eq_some_iff.1 hc.slice
    rw [h.rest, Text.byteLength_append] at hstop
    refine Text.slice?_eq_some_iff.2 ⟨before ++ x, after, by simpa [h.rest] using htext, ?_, ?_⟩
    · rw [Text.byteLength_append, hbefore, h.offset]
    · rw [h.offset, Nat.add_assoc, hstop]

/-- Of two places the text in between is read off the first. -/
theorem Spans.textTo (h : c.Spans x d) : c.textTo d.offset = x := by
  rw [Cursor.textTo, h.rest, h.offset, Nat.add_sub_cancel_left, Text.takeBytes?_byteLength_append, Option.getD_some]

end Cursor

/-! ## Jobs and answers -/

/-- What stays the same during a parse. -/
structure World (V : Type) where
  rules : Array (Rule V)
  file : String
  fileIndex : Nat

/-- What an action sees of the input between two places. -/
def World.matched (w : World V) (c d : Cursor) : Matched :=
  ⟨String.ofList (c.textTo d.offset), ⟨w.fileIndex, c.offset, d.offset⟩, w.file⟩

/-- The context of a caller once the value of the called rule is taken up. -/
def Rule.receive (rule : Rule V) (call : Call) (callee : Rule V) (ctx : Context V) (value : Option V) :
    Context V :=
  match callee.hasValue, value with
  | true, some v => rule.takeUp call.label ctx v
  | _, _ => ctx

/-- Parts of a run. -/
inductive Job (V : Type) where
  | pattern (rule : Rule V) (p : Pattern) (ctx : Context V)
  /-- The rounds of a repetition; nothing is skipped before the first one. -/
  | rounds (rule : Rule V) (p : Pattern) (first : Bool) (ctx : Context V)
  /-- The items of a list after the first one. -/
  | items (rule : Rule V) (item separator : Pattern) (ctx : Context V)
  | rule (id : RuleId) (args : List V)
  | skip (ctx : Context V)

/-- How a job ends. For a rule the context is its own one. -/
inductive Answer (V : Type) where
  | hit (ctx : Context V) (c : Cursor)
  | miss (ctx : Context V)
  /-- The parse fails. -/
  | stop

/-- A hit from a place ends further on in the same text. -/
def Answer.Onward (c : Cursor) : Answer V → Prop
  | .hit _ d => ∃ x, c.Spans x d
  | _ => True

theorem Answer.Onward.after {c d : Cursor} {r : Answer V} {ctx : Context V} (h : (Answer.hit ctx d).Onward c)
    (h' : r.Onward d) : r.Onward c := by
  cases r with
  | hit => exact ⟨_, h.choose_spec.trans h'.choose_spec⟩
  | miss | stop => trivial

inductive Derives (w : World V) : Option RuleId → Job V → Cursor → Answer V → Prop
  -- Skipping
  | skip_none {ctx c} : Derives w none (.skip ctx) c (.hit ctx c)
  | skip_hit {id ctx ctx' c d} (h : Derives w none (.rule id []) c (.hit ctx' d)) :
      Derives w (some id) (.skip ctx) c (.hit ctx d)
  | skip_miss {id ctx ctx' c} (h : Derives w none (.rule id []) c (.miss ctx')) :
      Derives w (some id) (.skip ctx) c (.hit ctx c)
  | skip_stop {id ctx c} (h : Derives w none (.rule id []) c .stop) : Derives w (some id) (.skip ctx) c .stop
  -- Rules
  | rule_hit {skip id rule args ctx c d} (hr : w.rules[id]? = some rule) (ha : args.length = rule.arity)
      (h : Derives w skip (.pattern rule rule.definition (.enter rule.attributes args c.offset)) c (.hit ctx d))
      (hv : rule.hasValue = true → ctx.value.isSome = true) : Derives w skip (.rule id args) c (.hit ctx d)
  | rule_miss {skip id rule args ctx c} (hr : w.rules[id]? = some rule) (ha : args.length = rule.arity)
      (h : Derives w skip (.pattern rule rule.definition (.enter rule.attributes args c.offset)) c (.miss ctx)) :
      Derives w skip (.rule id args) c (.miss ctx)
  | rule_valueless {skip id rule args ctx c d} (hr : w.rules[id]? = some rule) (ha : args.length = rule.arity)
      (h : Derives w skip (.pattern rule rule.definition (.enter rule.attributes args c.offset)) c (.hit ctx d))
      (hv : rule.hasValue = true) (hn : ctx.value = none) : Derives w skip (.rule id args) c .stop
  | rule_stop {skip id rule args c} (hr : w.rules[id]? = some rule) (ha : args.length = rule.arity)
      (h : Derives w skip (.pattern rule rule.definition (.enter rule.attributes args c.offset)) c .stop) :
      Derives w skip (.rule id args) c .stop
  -- Terminals
  | empty {skip rule ctx c} : Derives w skip (.pattern rule .empty ctx) c (.hit ctx c)
  | one_hit {skip rule kind ctx c ch d} (hn : c.next? = some (ch, d)) (ha : kind.accepts ch = true) :
      Derives w skip (.pattern rule (.one kind) ctx) c (.hit ctx d)
  | one_miss {skip rule kind ctx c} (hn : ∀ ch d, c.next? = some (ch, d) → kind.accepts ch = false) :
      Derives w skip (.pattern rule (.one kind) ctx) c (.miss ctx)
  | text_hit {skip rule literal ctx c d} (h : c.after? literal.toList = some d) :
      Derives w skip (.pattern rule (.text literal) ctx) c (.hit ctx d)
  | text_miss {skip rule literal ctx c} (h : c.after? literal.toList = none) :
      Derives w skip (.pattern rule (.text literal) ctx) c (.miss ctx)
  | keyword_hit {skip rule word ctx c d} (h : c.after? word.toList = some d)
      (hd : (d.next?.any fun (ch, _) => Text.isWordChar ch) = false) :
      Derives w skip (.pattern rule (.keyword word) ctx) c (.hit ctx d)
  | keyword_miss {skip rule word ctx c}
      (h : ∀ d, c.after? word.toList = some d → (d.next?.any fun (ch, _) => Text.isWordChar ch) = true) :
      Derives w skip (.pattern rule (.keyword word) ctx) c (.miss ctx)
  | keywords_hit {skip rule selector words ctx ctx' c d}
      (h : Derives w skip (.pattern rule selector ctx) c (.hit ctx' d))
      (hw : words.contains (String.ofList (c.textTo d.offset)) = true) :
      Derives w skip (.pattern rule (.keywords selector words) ctx) c (.hit ctx' d)
  | keywords_other {skip rule selector words ctx ctx' c d}
      (h : Derives w skip (.pattern rule selector ctx) c (.hit ctx' d))
      (hw : words.contains (String.ofList (c.textTo d.offset)) = false) :
      Derives w skip (.pattern rule (.keywords selector words) ctx) c (.miss ctx')
  | keywords_miss {skip rule selector words ctx ctx' c}
      (h : Derives w skip (.pattern rule selector ctx) c (.miss ctx')) :
      Derives w skip (.pattern rule (.keywords selector words) ctx) c (.miss ctx')
  | keywords_stop {skip rule selector words ctx c} (h : Derives w skip (.pattern rule selector ctx) c .stop) :
      Derives w skip (.pattern rule (.keywords selector words) ctx) c .stop
  -- Operators
  | seq_hit {skip rule a b ctx ctx₁ ctx₂ c c₁ c₂ d}
      (ha : Derives w skip (.pattern rule a ctx) c (.hit ctx₁ c₁))
      (hs : Derives w skip (.skip ctx₁) c₁ (.hit ctx₁ c₂))
      (hb : Derives w skip (.pattern rule b ctx₁) c₂ (.hit ctx₂ d)) (hd : d.offset ≠ c₂.offset) :
      Derives w skip (.pattern rule (.seq a b) ctx) c (.hit ctx₂ d)
  | seq_empty {skip rule a b ctx ctx₁ ctx₂ c c₁ c₂ d}
      (ha : Derives w skip (.pattern rule a ctx) c (.hit ctx₁ c₁))
      (hs : Derives w skip (.skip ctx₁) c₁ (.hit ctx₁ c₂))
      (hb : Derives w skip (.pattern rule b ctx₁) c₂ (.hit ctx₂ d)) (hd : d.offset = c₂.offset) :
      Derives w skip (.pattern rule (.seq a b) ctx) c (.hit ctx₂ c₁)
  | seq_first {skip rule a b ctx ctx₁ c} (ha : Derives w skip (.pattern rule a ctx) c (.miss ctx₁)) :
      Derives w skip (.pattern rule (.seq a b) ctx) c (.miss ctx₁)
  | seq_second {skip rule a b ctx ctx₁ ctx₂ c c₁ c₂}
      (ha : Derives w skip (.pattern rule a ctx) c (.hit ctx₁ c₁))
      (hs : Derives w skip (.skip ctx₁) c₁ (.hit ctx₁ c₂))
      (hb : Derives w skip (.pattern rule b ctx₁) c₂ (.miss ctx₂)) :
      Derives w skip (.pattern rule (.seq a b) ctx) c (.miss ctx₂)
  | seq_stop_first {skip rule a b ctx c} (ha : Derives w skip (.pattern rule a ctx) c .stop) :
      Derives w skip (.pattern rule (.seq a b) ctx) c .stop
  | seq_stop_skip {skip rule a b ctx ctx₁ c c₁} (ha : Derives w skip (.pattern rule a ctx) c (.hit ctx₁ c₁))
      (hs : Derives w skip (.skip ctx₁) c₁ .stop) : Derives w skip (.pattern rule (.seq a b) ctx) c .stop
  | seq_stop_second {skip rule a b ctx ctx₁ c c₁ c₂}
      (ha : Derives w skip (.pattern rule a ctx) c (.hit ctx₁ c₁))
      (hs : Derives w skip (.skip ctx₁) c₁ (.hit ctx₁ c₂)) (hb : Derives w skip (.pattern rule b ctx₁) c₂ .stop) :
      Derives w skip (.pattern rule (.seq a b) ctx) c .stop
  | alt_first {skip rule a b ctx ctx₁ c d} (ha : Derives w skip (.pattern rule a ctx) c (.hit ctx₁ d)) :
      Derives w skip (.pattern rule (.alt a b) ctx) c (.hit ctx₁ d)
  | alt_second {skip rule a b ctx ctx₁ c r} (ha : Derives w skip (.pattern rule a ctx) c (.miss ctx₁))
      (hb : Derives w skip (.pattern rule b ctx₁) c r) : Derives w skip (.pattern rule (.alt a b) ctx) c r
  | alt_stop {skip rule a b ctx c} (ha : Derives w skip (.pattern rule a ctx) c .stop) :
      Derives w skip (.pattern rule (.alt a b) ctx) c .stop
  | diff_subject {skip rule a b ctx ctx₁ c} (ha : Derives w skip (.pattern rule a ctx) c (.miss ctx₁)) :
      Derives w skip (.pattern rule (.diff a b) ctx) c (.miss ctx₁)
  | diff_apart {skip rule a b ctx ctx₁ ctx₂ c d}
      (ha : Derives w skip (.pattern rule a ctx) c (.hit ctx₁ d))
      (hb : Derives w skip (.pattern rule b ctx₁) c (.miss ctx₂)) :
      Derives w skip (.pattern rule (.diff a b) ctx) c (.hit ctx₂ d)
  | diff_longer {skip rule a b ctx ctx₁ ctx₂ c d e}
      (ha : Derives w skip (.pattern rule a ctx) c (.hit ctx₁ d))
      (hb : Derives w skip (.pattern rule b ctx₁) c (.hit ctx₂ e)) (hd : e.offset < d.offset) :
      Derives w skip (.pattern rule (.diff a b) ctx) c (.hit ctx₂ d)
  | diff_excluded {skip rule a b ctx ctx₁ ctx₂ c d e}
      (ha : Derives w skip (.pattern rule a ctx) c (.hit ctx₁ d))
      (hb : Derives w skip (.pattern rule b ctx₁) c (.hit ctx₂ e)) (hd : d.offset ≤ e.offset) :
      Derives w skip (.pattern rule (.diff a b) ctx) c (.miss ctx₂)
  | diff_stop_subject {skip rule a b ctx c} (ha : Derives w skip (.pattern rule a ctx) c .stop) :
      Derives w skip (.pattern rule (.diff a b) ctx) c .stop
  | diff_stop_excluded {skip rule a b ctx ctx₁ c d} (ha : Derives w skip (.pattern rule a ctx) c (.hit ctx₁ d))
      (hb : Derives w skip (.pattern rule b ctx₁) c .stop) : Derives w skip (.pattern rule (.diff a b) ctx) c .stop
  | list_miss {skip rule item separator ctx ctx₁ c}
      (h : Derives w skip (.pattern rule item ctx) c (.miss ctx₁)) :
      Derives w skip (.pattern rule (.list item separator) ctx) c (.miss ctx₁)
  | list_hit {skip rule item separator ctx ctx₁ c c₁ r}
      (h : Derives w skip (.pattern rule item ctx) c (.hit ctx₁ c₁))
      (hi : Derives w skip (.items rule item separator ctx₁) c₁ r) :
      Derives w skip (.pattern rule (.list item separator) ctx) c r
  | list_stop {skip rule item separator ctx c} (h : Derives w skip (.pattern rule item ctx) c .stop) :
      Derives w skip (.pattern rule (.list item separator) ctx) c .stop
  | opt_hit {skip rule p ctx ctx₁ c d} (h : Derives w skip (.pattern rule p ctx) c (.hit ctx₁ d)) :
      Derives w skip (.pattern rule (.opt p) ctx) c (.hit ctx₁ d)
  | opt_miss {skip rule p ctx ctx₁ c} (h : Derives w skip (.pattern rule p ctx) c (.miss ctx₁)) :
      Derives w skip (.pattern rule (.opt p) ctx) c (.hit ctx₁ c)
  | opt_stop {skip rule p ctx c} (h : Derives w skip (.pattern rule p ctx) c .stop) :
      Derives w skip (.pattern rule (.opt p) ctx) c .stop
  | many {skip rule p ctx c r} (h : Derives w skip (.rounds rule p true ctx) c r) :
      Derives w skip (.pattern rule (.many p) ctx) c r
  | many1_miss {skip rule p ctx ctx₁ c} (h : Derives w skip (.pattern rule p ctx) c (.miss ctx₁)) :
      Derives w skip (.pattern rule (.many1 p) ctx) c (.miss ctx₁)
  | many1_hit {skip rule p ctx ctx₁ c c₁ r} (h : Derives w skip (.pattern rule p ctx) c (.hit ctx₁ c₁))
      (hr : Derives w skip (.rounds rule p false ctx₁) c₁ r) : Derives w skip (.pattern rule (.many1 p) ctx) c r
  | many1_stop {skip rule p ctx c} (h : Derives w skip (.pattern rule p ctx) c .stop) :
      Derives w skip (.pattern rule (.many1 p) ctx) c .stop
  | expect_hit {skip rule p ctx ctx₁ c d} (h : Derives w skip (.pattern rule p ctx) c (.hit ctx₁ d)) :
      Derives w skip (.pattern rule (.expect p) ctx) c (.hit ctx₁ d)
  | expect_miss {skip rule p ctx ctx₁ c} (h : Derives w skip (.pattern rule p ctx) c (.miss ctx₁)) :
      Derives w skip (.pattern rule (.expect p) ctx) c .stop
  | expect_stop {skip rule p ctx c} (h : Derives w skip (.pattern rule p ctx) c .stop) :
      Derives w skip (.pattern rule (.expect p) ctx) c .stop
  | token {skip rule p ctx c r} (h : Derives w none (.pattern rule p ctx) c r) :
      Derives w skip (.pattern rule (.token p) ctx) c r
  | lookahead_hit {skip rule p ctx ctx₁ c d} (h : Derives w skip (.pattern rule p ctx) c (.hit ctx₁ d)) :
      Derives w skip (.pattern rule (.lookahead p) ctx) c (.hit ctx₁ c)
  | lookahead_miss {skip rule p ctx ctx₁ c} (h : Derives w skip (.pattern rule p ctx) c (.miss ctx₁)) :
      Derives w skip (.pattern rule (.lookahead p) ctx) c (.miss ctx₁)
  | lookahead_stop {skip rule p ctx c} (h : Derives w skip (.pattern rule p ctx) c .stop) :
      Derives w skip (.pattern rule (.lookahead p) ctx) c .stop
  | notAhead_hit {skip rule p ctx ctx₁ c d} (h : Derives w skip (.pattern rule p ctx) c (.hit ctx₁ d)) :
      Derives w skip (.pattern rule (.notAhead p) ctx) c (.miss ctx₁)
  | notAhead_miss {skip rule p ctx ctx₁ c} (h : Derives w skip (.pattern rule p ctx) c (.miss ctx₁)) :
      Derives w skip (.pattern rule (.notAhead p) ctx) c (.hit ctx₁ c)
  | notAhead_stop {skip rule p ctx c} (h : Derives w skip (.pattern rule p ctx) c .stop) :
      Derives w skip (.pattern rule (.notAhead p) ctx) c .stop
  -- Actions and calls
  | act_miss {skip rule name p ctx ctx₁ c} (h : Derives w skip (.pattern rule p ctx) c (.miss ctx₁)) :
      Derives w skip (.pattern rule (.act name p) ctx) c (.miss ctx₁)
  | act_pass {skip rule name p ctx ctx₁ ctx₂ c d f} (h : Derives w skip (.pattern rule p ctx) c (.hit ctx₁ d))
      (hf : rule.action? name = some f) (hv : f ctx₁ (w.matched c d) = (.pass, ctx₂)) :
      Derives w skip (.pattern rule (.act name p) ctx) c (.hit ctx₂ d)
  | act_reject {skip rule name p ctx ctx₁ ctx₂ c d f}
      (h : Derives w skip (.pattern rule p ctx) c (.hit ctx₁ d)) (hf : rule.action? name = some f)
      (hv : f ctx₁ (w.matched c d) = (.reject, ctx₂)) :
      Derives w skip (.pattern rule (.act name p) ctx) c (.miss ctx₂)
  | act_fail {skip rule name p ctx ctx₁ ctx₂ c d f cause}
      (h : Derives w skip (.pattern rule p ctx) c (.hit ctx₁ d)) (hf : rule.action? name = some f)
      (hv : f ctx₁ (w.matched c d) = (.fail cause, ctx₂)) :
      Derives w skip (.pattern rule (.act name p) ctx) c .stop
  | act_stop {skip rule name p ctx c} (h : Derives w skip (.pattern rule p ctx) c .stop) :
      Derives w skip (.pattern rule (.act name p) ctx) c .stop
  | call_hit {skip rule call id callee ctx ctx' c d} (ht : call.target = some id)
      (hl : (rule.argumentsOf call ctx).length = call.arity) (hc : w.rules[id]? = some callee)
      (h : Derives w skip (.rule id (rule.argumentsOf call ctx)) c (.hit ctx' d)) :
      Derives w skip (.pattern rule (.call call) ctx) c (.hit (rule.receive call callee ctx ctx'.value) d)
  | call_miss {skip rule call id ctx ctx' c} (ht : call.target = some id)
      (hl : (rule.argumentsOf call ctx).length = call.arity)
      (h : Derives w skip (.rule id (rule.argumentsOf call ctx)) c (.miss ctx')) :
      Derives w skip (.pattern rule (.call call) ctx) c (.miss ctx)
  | call_stop {skip rule call id ctx c} (ht : call.target = some id)
      (hl : (rule.argumentsOf call ctx).length = call.arity)
      (h : Derives w skip (.rule id (rule.argumentsOf call ctx)) c .stop) :
      Derives w skip (.pattern rule (.call call) ctx) c .stop
  | call_arguments {skip rule call ctx c} (hl : (rule.argumentsOf call ctx).length ≠ call.arity) :
      Derives w skip (.pattern rule (.call call) ctx) c .stop
  -- Loops
  | rounds_end {skip rule p first ctx c} (hc : c.rest = []) :
      Derives w skip (.rounds rule p first ctx) c (.hit ctx c)
  | rounds_miss {skip rule p first ctx ctx₁ c c₁} (hc : c.rest ≠ [])
      (hs : Derives w (if first then none else skip) (.skip ctx) c (.hit ctx c₁))
      (h : Derives w skip (.pattern rule p ctx) c₁ (.miss ctx₁)) :
      Derives w skip (.rounds rule p first ctx) c (.hit ctx₁ c)
  | rounds_hit {skip rule p first ctx ctx₁ c c₁ c₂ r} (hc : c.rest ≠ [])
      (hs : Derives w (if first then none else skip) (.skip ctx) c (.hit ctx c₁))
      (h : Derives w skip (.pattern rule p ctx) c₁ (.hit ctx₁ c₂))
      (hr : Derives w skip (.rounds rule p false ctx₁) c₂ r) : Derives w skip (.rounds rule p first ctx) c r
  | rounds_stop_skip {skip rule p first ctx c} (hc : c.rest ≠ [])
      (hs : Derives w (if first then none else skip) (.skip ctx) c .stop) :
      Derives w skip (.rounds rule p first ctx) c .stop
  | rounds_stop {skip rule p first ctx c c₁} (hc : c.rest ≠ [])
      (hs : Derives w (if first then none else skip) (.skip ctx) c (.hit ctx c₁))
      (h : Derives w skip (.pattern rule p ctx) c₁ .stop) : Derives w skip (.rounds rule p first ctx) c .stop
  | items_end {skip rule item separator ctx ctx₁ c c₁} (hs : Derives w skip (.skip ctx) c (.hit ctx c₁))
      (h : Derives w skip (.pattern rule separator ctx) c₁ (.miss ctx₁)) :
      Derives w skip (.items rule item separator ctx) c (.hit ctx₁ c)
  | items_back {skip rule item separator ctx ctx₁ ctx₂ c c₁ c₂ c₃}
      (hs : Derives w skip (.skip ctx) c (.hit ctx c₁))
      (h : Derives w skip (.pattern rule separator ctx) c₁ (.hit ctx₁ c₂))
      (hs' : Derives w skip (.skip ctx₁) c₂ (.hit ctx₁ c₃))
      (hi : Derives w skip (.pattern rule item ctx₁) c₃ (.miss ctx₂)) :
      Derives w skip (.items rule item separator ctx) c (.hit ctx₂ c)
  | items_hit {skip rule item separator ctx ctx₁ ctx₂ c c₁ c₂ c₃ c₄ r}
      (hs : Derives w skip (.skip ctx) c (.hit ctx c₁))
      (h : Derives w skip (.pattern rule separator ctx) c₁ (.hit ctx₁ c₂))
      (hs' : Derives w skip (.skip ctx₁) c₂ (.hit ctx₁ c₃))
      (hi : Derives w skip (.pattern rule item ctx₁) c₃ (.hit ctx₂ c₄))
      (hr : Derives w skip (.items rule item separator ctx₂) c₄ r) :
      Derives w skip (.items rule item separator ctx) c r
  | items_stop_skip {skip rule item separator ctx c} (hs : Derives w skip (.skip ctx) c .stop) :
      Derives w skip (.items rule item separator ctx) c .stop
  | items_stop_separator {skip rule item separator ctx c c₁} (hs : Derives w skip (.skip ctx) c (.hit ctx c₁))
      (h : Derives w skip (.pattern rule separator ctx) c₁ .stop) :
      Derives w skip (.items rule item separator ctx) c .stop
  | items_stop_between {skip rule item separator ctx ctx₁ c c₁ c₂}
      (hs : Derives w skip (.skip ctx) c (.hit ctx c₁))
      (h : Derives w skip (.pattern rule separator ctx) c₁ (.hit ctx₁ c₂))
      (hs' : Derives w skip (.skip ctx₁) c₂ .stop) : Derives w skip (.items rule item separator ctx) c .stop
  | items_stop {skip rule item separator ctx ctx₁ c c₁ c₂ c₃} (hs : Derives w skip (.skip ctx) c (.hit ctx c₁))
      (h : Derives w skip (.pattern rule separator ctx) c₁ (.hit ctx₁ c₂))
      (hs' : Derives w skip (.skip ctx₁) c₂ (.hit ctx₁ c₃))
      (hi : Derives w skip (.pattern rule item ctx₁) c₃ .stop) :
      Derives w skip (.items rule item separator ctx) c .stop

/-! ## Inversion -/

/-- What the rounds of a repetition come to, by what their parts come to. -/
def RoundsView (w : World V) (skip : Option RuleId) (rule : Rule V) (p : Pattern) (first : Bool) (ctx : Context V)
    (c : Cursor) (r : Answer V) : Prop :=
  if c.rest = [] then r = .hit ctx c else
    ∃ a, Derives w (if first then none else skip) (.skip ctx) c a ∧ match a with
    | .hit _ c₁ => ∃ b, Derives w skip (.pattern rule p ctx) c₁ b ∧ match b with
      | .hit ctx₁ c₂ => Derives w skip (.rounds rule p false ctx₁) c₂ r
      | .miss ctx₁ => r = .hit ctx₁ c
      | .stop => r = .stop
    | _ => r = .stop

/-- The same for the items of a list. -/
def ItemsView (w : World V) (skip : Option RuleId) (rule : Rule V) (item separator : Pattern) (ctx : Context V)
    (c : Cursor) (r : Answer V) : Prop :=
  ∃ a, Derives w skip (.skip ctx) c a ∧ match a with
  | .hit _ c₁ => ∃ b, Derives w skip (.pattern rule separator ctx) c₁ b ∧ match b with
    | .hit ctx₁ c₂ => ∃ a', Derives w skip (.skip ctx₁) c₂ a' ∧ match a' with
      | .hit _ c₃ => ∃ b', Derives w skip (.pattern rule item ctx₁) c₃ b' ∧ match b' with
        | .hit ctx₂ c₄ => Derives w skip (.items rule item separator ctx₂) c₄ r
        | .miss ctx₂ => r = .hit ctx₂ c
        | .stop => r = .stop
      | _ => r = .stop
    | .miss ctx₁ => r = .hit ctx₁ c
    | .stop => r = .stop
  | _ => r = .stop

/-- The same for a call. -/
def CallView (w : World V) (skip : Option RuleId) (rule : Rule V) (call : Call) (ctx : Context V) (c : Cursor)
    (r : Answer V) : Prop :=
  if (rule.argumentsOf call ctx).length = call.arity then
    ∃ id a, call.target = some id ∧ Derives w skip (.rule id (rule.argumentsOf call ctx)) c a ∧ match a with
    | .hit ctx' d => ∃ callee, w.rules[id]? = some callee ∧ r = .hit (rule.receive call callee ctx ctx'.value) d
    | .miss _ => r = .miss ctx
    | .stop => r = .stop
  else r = .stop

/-- The same for a pattern. -/
def PatternView (w : World V) (skip : Option RuleId) (rule : Rule V) (ctx : Context V) (c : Cursor) (r : Answer V) :
    Pattern → Prop
  | .empty => r = .hit ctx c
  | .one kind => r = match c.next? with
    | some (ch, d) => if kind.accepts ch then .hit ctx d else .miss ctx
    | none => .miss ctx
  | .text literal => r = match c.after? literal.toList with
    | some d => .hit ctx d
    | none => .miss ctx
  | .keyword word => r = match c.after? word.toList with
    | some d => if d.next?.any fun (ch, _) => Text.isWordChar ch then .miss ctx else .hit ctx d
    | none => .miss ctx
  | .keywords p words => ∃ a, Derives w skip (.pattern rule p ctx) c a ∧ r = match a with
    | .hit ctx₁ d => if words.contains (String.ofList (c.textTo d.offset)) then .hit ctx₁ d else .miss ctx₁
    | a => a
  | .seq p q => ∃ a, Derives w skip (.pattern rule p ctx) c a ∧ match a with
    | .hit ctx₁ c₁ => ∃ s, Derives w skip (.skip ctx₁) c₁ s ∧ match s with
      | .hit _ c₂ => ∃ b, Derives w skip (.pattern rule q ctx₁) c₂ b ∧ r = match b with
        | .hit ctx₂ d => .hit ctx₂ (if d.offset = c₂.offset then c₁ else d)
        | b => b
      | _ => r = .stop
    | a => r = a
  | .alt p q => ∃ a, Derives w skip (.pattern rule p ctx) c a ∧ match a with
    | .miss ctx₁ => Derives w skip (.pattern rule q ctx₁) c r
    | a => r = a
  | .diff p q => ∃ a, Derives w skip (.pattern rule p ctx) c a ∧ match a with
    | .hit ctx₁ d => ∃ b, Derives w skip (.pattern rule q ctx₁) c b ∧ r = match b with
      | .hit ctx₂ e => if e.offset < d.offset then .hit ctx₂ d else .miss ctx₂
      | .miss ctx₂ => .hit ctx₂ d
      | .stop => .stop
    | a => r = a
  | .list item separator => ∃ a, Derives w skip (.pattern rule item ctx) c a ∧ match a with
    | .hit ctx₁ c₁ => Derives w skip (.items rule item separator ctx₁) c₁ r
    | a => r = a
  | .opt p => ∃ a, Derives w skip (.pattern rule p ctx) c a ∧ r = match a with
    | .miss ctx₁ => .hit ctx₁ c
    | a => a
  | .many p => Derives w skip (.rounds rule p true ctx) c r
  | .many1 p => ∃ a, Derives w skip (.pattern rule p ctx) c a ∧ match a with
    | .hit ctx₁ c₁ => Derives w skip (.rounds rule p false ctx₁) c₁ r
    | a => r = a
  | .expect p => ∃ a, Derives w skip (.pattern rule p ctx) c a ∧ r = match a with
    | .miss _ => .stop
    | a => a
  | .token p => Derives w none (.pattern rule p ctx) c r
  | .lookahead p => ∃ a, Derives w skip (.pattern rule p ctx) c a ∧ r = match a with
    | .hit ctx₁ _ => .hit ctx₁ c
    | a => a
  | .notAhead p => ∃ a, Derives w skip (.pattern rule p ctx) c a ∧ r = match a with
    | .hit ctx₁ _ => .miss ctx₁
    | .miss ctx₁ => .hit ctx₁ c
    | .stop => .stop
  | .act name p => ∃ a, Derives w skip (.pattern rule p ctx) c a ∧ match a with
    | .hit ctx₁ d => ∃ f, rule.action? name = some f ∧ r = match f ctx₁ (w.matched c d) with
      | (.pass, ctx₂) => .hit ctx₂ d
      | (.reject, ctx₂) => .miss ctx₂
      | (.fail _, _) => .stop
    | a => r = a
  | .call call => CallView w skip rule call ctx c r

/-- What a job comes to, by what its parts come to. -/
def Job.View (w : World V) (skip : Option RuleId) (c : Cursor) (r : Answer V) : Job V → Prop
  | .pattern owner p ctx => PatternView w skip owner ctx c r p
  | .rounds owner p first ctx => RoundsView w skip owner p first ctx c r
  | .items owner item separator ctx => ItemsView w skip owner item separator ctx c r
  | .rule id args => ∃ callee a, w.rules[id]? = some callee ∧
      Derives w skip (.pattern callee callee.definition (.enter callee.attributes args c.offset)) c a ∧ r = match a with
      | .hit ctx d => if callee.hasValue = true ∧ ctx.value = none then .stop else .hit ctx d
      | a => a
  | .skip ctx => match skip with
    | none => r = .hit ctx c
    | some id => ∃ a, Derives w none (.rule id []) c a ∧ r = match a with
      | .hit _ d => .hit ctx d
      | .miss _ => .hit ctx c
      | .stop => .stop

namespace Derives

variable {w : World V} {skip : Option RuleId} {job : Job V} {c : Cursor} {r r' : Answer V}

/-- One inversion for all jobs. -/
theorem view (h : Derives w skip job c r) : job.View w skip c r := by
  cases h with
  | _ => simp only [Job.View, PatternView, RoundsView, ItemsView, CallView] <;> grind

/-- A job ends in one way. -/
theorem unique (h : Derives w skip job c r) (h' : Derives w skip job c r') : r = r' := by
  -- Inverting each of the many constructors against each other one is slow; the view leaves only those of its job.
  induction h generalizing r' with
  | _ =>
    have h' := h'.view
    simp only [Job.View, PatternView, RoundsView, ItemsView, CallView] at h'
    grind

theorem onward (h : Derives w skip job c r) : r.Onward c := by
  induction h with
  | skip_none | skip_miss | empty | opt_miss | lookahead_hit | notAhead_miss | rounds_end | rounds_miss | items_end
  | items_back => exact ⟨[], .rfl⟩
  | one_hit hn => exact ⟨_, .next hn⟩
  | text_hit h => exact ⟨_, .after h⟩
  | keyword_hit h => exact ⟨_, .after h⟩
  | skip_hit _ ih | rule_hit _ _ _ _ ih | keywords_hit _ _ ih | alt_first _ ih | alt_second _ _ _ ih | opt_hit _ ih
  | many _ ih | expect_hit _ ih | token _ ih | act_pass _ _ _ ih | call_hit _ _ _ _ ih => exact ih
  | diff_apart _ _ ih | diff_longer _ _ _ ih => exact ih
  | seq_empty _ _ _ _ ih => exact ih
  | seq_hit _ _ _ _ ih₁ ih₂ ih₃ => exact ih₁.after (ih₂.after ih₃)
  | list_hit _ _ ih₁ ih₂ | many1_hit _ _ ih₁ ih₂ => exact ih₁.after ih₂
  | rounds_hit _ _ _ _ ih₁ ih₂ ih₃ => exact ih₁.after (ih₂.after ih₃)
  | items_hit _ _ _ _ _ ih₁ ih₂ ih₃ ih₄ ih₅ => exact ih₁.after (ih₂.after (ih₃.after (ih₄.after ih₅)))
  | _ => trivial

/-- A hit ends further on in the same text. -/
theorem spans {ctx : Context V} {d : Cursor} (h : Derives w skip job c (.hit ctx d)) : ∃ x, c.Spans x d := h.onward

end Derives

end PegFront
