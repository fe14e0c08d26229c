import Mathlib.Data.List.Basic
import PegFront.Proofs.Wp

/-!
# Signatures of rules

Rules declare the types of their attributes and of their value, but the values they pass to each other carry
no types the engine would check, and the variables of a context are names. A `Signature` says what the hooks
of a rule need of its context and what they add to it, and `Rule.Conforms` that they keep to it. From the
signatures alone `Pattern.learns` computes what is known of the context after a match, and `Rule.checks` that
a rule never runs a hook that needs more and ends with its value.
-/

namespace PegFront

variable {V : Type}

/-! ## Slots -/

/-- A part of a context that holds a value. -/
inductive Slot where
  | value
  | var (name : String)
deriving DecidableEq, Repr

namespace Bindings

variable {α : Type} (bs : Bindings α) (a : α) {name other : String}

theorem get?_cons (b : String × α) : get? (b :: bs) name = if name = b.1 then some b.2 else get? bs name := by
  obtain ⟨other, v⟩ := b
  unfold get?
  rw [List.lookup_cons]
  split
  · next h => rw [if_pos (eq_of_beq h)]
  · next h => rw [if_neg (ne_of_beq_false h)]

theorem get?_insert_self : get? (insert bs name a) name = some a := by
  induction bs with
  | nil => simp [insert, get?_cons]
  | cons b bs ih =>
    unfold insert
    split
    · next h => rw [get?_cons, if_pos h]
    · next h => rw [get?_cons, if_neg h, ih]

theorem get?_insert_ne (h : other ≠ name) : get? (insert bs name a) other = get? bs other := by
  induction bs with
  | nil => simp [insert, get?_cons, h]
  | cons b bs ih =>
    unfold insert
    split
    · next hn => rw [get?_cons, get?_cons, if_neg (hn ▸ h), if_neg (hn ▸ h)]
    · rw [get?_cons, get?_cons, ih]

theorem get?_erase_ne (h : other ≠ name) : get? (erase bs name) other = get? bs other := by
  induction bs with
  | nil => rfl
  | cons b bs ih =>
    unfold erase at ih ⊢
    rw [List.filter_cons, get?_cons]
    split
    · rw [get?_cons, ih]
    · next hb =>
      have hb : b.1 = name := by simpa using hb
      rw [if_neg (hb ▸ h), ih]

end Bindings

namespace Context

variable (ctx : Context V) (v : V) {name : String} {slot : Slot}

def slot? (ctx : Context V) : Slot → Option V
  | .value => ctx.value
  | .var name => ctx.get? name

theorem slot?_set_self : (ctx.set name v).slot? (.var name) = some v := Bindings.get?_insert_self _ _

theorem slot?_set_ne (h : slot ≠ .var name) : (ctx.set name v).slot? slot = ctx.slot? slot := by
  cases slot with
  | value => rfl
  | var other => exact Bindings.get?_insert_ne _ _ fun he => h (he ▸ rfl)

theorem slot?_take_ne (h : slot ≠ .var name) : (ctx.take name).2.slot? slot = ctx.slot? slot := by
  cases slot with
  | value => rfl
  | var other => exact Bindings.get?_erase_ne _ fun he => h (he ▸ rfl)

theorem slot?_setValue_ne (h : slot ≠ .value) : (ctx.setValue v).slot? slot = ctx.slot? slot := by
  cases slot with
  | value => exact absurd rfl h
  | var other => rfl

end Context

/-! ## What is known of a context -/

/-- The types of values, and of the slots that have one. -/
structure Layout (V : Type) where
  typeOf : V → String
  slotType : Slot → Option String

namespace Layout

variable {L : Layout V} {ctx ctx' : Context V} {slot : Slot} {known : List Slot}

/-- The slot holds a value of its type. -/
def Filled (L : Layout V) (ctx : Context V) (slot : Slot) : Prop :=
  ∃ v, ctx.slot? slot = some v ∧ L.slotType slot = some (L.typeOf v)

def Knows (L : Layout V) (known : List Slot) (ctx : Context V) : Prop :=
  ∀ slot ∈ known, L.Filled ctx slot

/-- No slot that was filled is left empty, or filled with a value of another type. -/
def Keeps (L : Layout V) (ctx ctx' : Context V) : Prop :=
  ∀ slot, L.Filled ctx slot → L.Filled ctx' slot

theorem Keeps.rfl : L.Keeps ctx ctx := fun _ h => h

theorem Keeps.trans {ctx'' : Context V} (h : L.Keeps ctx ctx') (h' : L.Keeps ctx' ctx'') :
    L.Keeps ctx ctx'' := fun slot hs => h' slot (h slot hs)

theorem Knows.keeps (h : L.Knows known ctx) (hk : L.Keeps ctx ctx') : L.Knows known ctx' :=
  fun slot hs => hk slot (h slot hs)

theorem knows_nil : L.Knows [] ctx := nofun

theorem knows_append {more : List Slot} :
    L.Knows (known ++ more) ctx ↔ L.Knows known ctx ∧ L.Knows more ctx := by
  unfold Knows
  simp only [List.mem_append]
  exact ⟨fun h => ⟨fun s hs => h s (.inl hs), fun s hs => h s (.inr hs)⟩, fun h s hs => hs.elim (h.1 s) (h.2 s)⟩

theorem knows_singleton : L.Knows [slot] ctx ↔ L.Filled ctx slot := by
  simp [Knows]

theorem Filled.of_eq (h : L.Filled ctx slot) (he : ctx'.slot? slot = ctx.slot? slot) : L.Filled ctx' slot := by
  obtain ⟨v, hv, ht⟩ := h
  exact ⟨v, he.trans hv, ht⟩

theorem filled_setValue {v : V} (h : L.slotType .value = some (L.typeOf v)) :
    L.Filled (ctx.setValue v) .value := ⟨v, rfl, h⟩

theorem keeps_setValue {v : V} (h : L.slotType .value = some (L.typeOf v)) : L.Keeps ctx (ctx.setValue v) := by
  intro slot hs
  by_cases he : slot = .value
  · exact he ▸ filled_setValue h
  · exact hs.of_eq (ctx.slot?_setValue_ne v he)

theorem filled_set {name : String} {v : V} (h : L.slotType (.var name) = some (L.typeOf v)) :
    L.Filled (ctx.set name v) (.var name) := ⟨v, ctx.slot?_set_self v, h⟩

theorem keeps_set {name : String} {v : V} (h : L.slotType (.var name) = some (L.typeOf v)) :
    L.Keeps ctx (ctx.set name v) := by
  intro slot hs
  by_cases he : slot = .var name
  · exact he ▸ filled_set h
  · exact hs.of_eq (ctx.slot?_set_ne v he)

/-- A slot that has no type is never known to be filled, so anything can be done to it. -/
theorem Filled.ne (hs : L.Filled ctx slot) {free : Slot} (h : L.slotType free = none) : slot ≠ free := by
  rintro rfl
  obtain ⟨v, _, ht⟩ := hs
  rw [h] at ht
  nomatch ht

theorem keeps_set_free {name : String} (v : V) (h : L.slotType (.var name) = none) :
    L.Keeps ctx (ctx.set name v) := fun _ hs => hs.of_eq (ctx.slot?_set_ne v (hs.ne h))

theorem keeps_take_free {name : String} (h : L.slotType (.var name) = none) :
    L.Keeps ctx (ctx.take name).2 := fun _ hs => hs.of_eq (ctx.slot?_take_ne (hs.ne h))

end Layout

/-! ## Signatures -/

/-- What has to be known before something runs, and what is known after it. -/
structure Effect where
  needs : List Slot := []
  fills : List Slot := []

/-- What is done with the value of a call. -/
structure Taking extends Effect where
  /-- Whether the value must have the type of the value of the rule. -/
  own : Bool := false

/-- What the hooks of a rule do, by the names they are bound to. -/
structure Signature where
  /-- Variables that have a type, besides the attributes. -/
  locals : List Attribute := []
  actions : String → Effect
  /-- Types of the arguments of a call. -/
  passes : String → List String
  takes : String → Taking

namespace Rule

variable (typeOf : V → String) (sig : Signature)

def slotType (rule : Rule V) : Slot → Option String
  | .value => rule.valueType
  | .var name => ((rule.attributes ++ sig.locals).find? (·.name == name)).map (·.typeName)

def layout (rule : Rule V) : Layout V := ⟨typeOf, rule.slotType sig⟩

def attributeSlots (rule : Rule V) : List Slot := rule.attributes.map fun a => .var a.name

end Rule

namespace Layout

variable (L : Layout V)

/-- What an action that may refuse a match makes of a context: it loses nothing, and fills slots if it lets
the match pass. -/
def Sets (slots : List Slot) (ctx : Context V) (r : Bool × Context V) : Prop :=
  L.Keeps ctx r.2 ∧ (r.1 = true → L.Knows slots r.2)

variable {L} in
theorem Sets.refuse {slots : List Slot} {ctx ctx' : Context V} (h : L.Keeps ctx ctx') :
    L.Sets slots ctx (false, ctx') := ⟨h, nofun⟩

variable {L} in
theorem Sets.trans {slots : List Slot} {ctx ctx' : Context V} {r : Bool × Context V} (h : L.Keeps ctx ctx')
    (hr : L.Sets slots ctx' r) : L.Sets slots ctx r := ⟨h.trans hr.1, hr.2⟩

/-- The action has the effect. If it fails the parse, it reports a cause in `tame`. -/
def Runs (tame : Cause → Prop) (e : Effect) (f : Action V) : Prop :=
  ∀ ctx m, L.Knows e.needs ctx → L.Keeps ctx (f ctx m).2 ∧
    ((f ctx m).1 = .pass → L.Knows e.fills (f ctx m).2) ∧ ∀ cause, (f ctx m).1 = .fail cause → tame cause

/-- The values passed have the types. -/
def Passes (attributes : List Slot) (types : List String) (f : PreCall V) : Prop :=
  ∀ ctx, L.Knows attributes ctx → (f ctx).map L.typeOf = types

/-- Taking up a value has the effect. -/
def Takes (e : Taking) (f : PostCall V) : Prop :=
  ∀ ctx v, L.Knows e.needs ctx → (e.own = true → L.slotType .value = some (L.typeOf v)) →
    L.Keeps ctx (f ctx v) ∧ L.Knows e.fills (f ctx v)

end Layout

/-- The hooks of the rule keep to the signature. -/
structure Rule.Conforms (typeOf : V → String) (sig : Signature) (tame : Cause → Prop) (rule : Rule V) :
    Prop where
  actions : ∀ name f, rule.action? name = some f →
    (rule.layout typeOf sig).Runs tame (sig.actions name) f
  passes : ∀ label f, rule.preCall? label = some f →
    (rule.layout typeOf sig).Passes rule.attributeSlots (sig.passes label) f
  takes : ∀ label f, rule.postCall? label = some f →
    (rule.layout typeOf sig).Takes (sig.takes label) f

/-! ## Building rules that conform -/

/-- What is bound in a context with one more binding. -/
theorem Bindings.get?_insert_eq_some {α : Type} {bs : Bindings α} {name other : String} {a b : α}
    (h : (bs.insert name a).get? other = some b) : other = name ∧ a = b ∨ bs.get? other = some b := by
  by_cases he : other = name
  · rw [he, Bindings.get?_insert_self, Option.some.injEq] at h
    exact .inl ⟨he, h⟩
  · rw [Bindings.get?_insert_ne _ _ he] at h
    exact .inr h

namespace Rule.Conforms

variable {typeOf : V → String} {sig : Signature} {tame : Cause → Prop} {rule : Rule V} {name : String}

theorem bare (ha : rule.actions = []) (hp : rule.preCalls = []) (ht : rule.postCalls = []) :
    rule.Conforms typeOf sig tame := by
  refine ⟨fun _ _ h => ?_, fun _ _ h => ?_, fun _ _ h => ?_⟩
  · simp [Rule.action?, ha, Bindings.get?] at h
  · simp [Rule.preCall?, hp, Bindings.get?] at h
  · simp [Rule.postCall?, ht, Bindings.get?] at h

theorem checked (h : rule.Conforms typeOf sig tame) {f : Action V}
    (hf : (rule.layout typeOf sig).Runs tame (sig.actions name) f) :
    (rule.checked name f).Conforms typeOf sig tame := by
  refine ⟨fun other g hg => ?_, h.passes, h.takes⟩
  rcases Bindings.get?_insert_eq_some hg with ⟨rfl, rfl⟩ | hg
  · exact hf
  · exact h.actions other g hg

theorem predicate (h : rule.Conforms typeOf sig tame) {f : Context V → Matched → Bool × Context V}
    (hf : ∀ ctx m, (rule.layout typeOf sig).Knows (sig.actions name).needs ctx →
      (rule.layout typeOf sig).Sets (sig.actions name).fills ctx (f ctx m)) :
    (rule.predicate name f).Conforms typeOf sig tame := by
  refine h.checked fun ctx m hneeds => ?_
  obtain ⟨hkeeps, hfills⟩ := hf ctx m hneeds
  refine ⟨hkeeps, fun hpass => hfills ?_, fun cause hfail => ?_⟩
  · cases hok : (f ctx m).1 with
    | true => rfl
    | false => simp [hok, Verdict.ofBool] at hpass
  · cases hok : (f ctx m).1 <;> simp [hok, Verdict.ofBool] at hfail

theorem action (h : rule.Conforms typeOf sig tame) {f : Context V → Matched → Context V}
    (hf : ∀ ctx m, (rule.layout typeOf sig).Knows (sig.actions name).needs ctx →
      (rule.layout typeOf sig).Sets (sig.actions name).fills ctx (true, f ctx m)) :
    (rule.action name f).Conforms typeOf sig tame :=
  h.checked fun ctx m hneeds => ⟨(hf ctx m hneeds).1, fun _ => (hf ctx m hneeds).2 rfl, nofun⟩

theorem preCall (h : rule.Conforms typeOf sig tame) {f : PreCall V}
    (hf : (rule.layout typeOf sig).Passes rule.attributeSlots (sig.passes name) f) :
    (rule.preCall name f).Conforms typeOf sig tame := by
  refine ⟨h.actions, fun other g hg => ?_, h.takes⟩
  rcases Bindings.get?_insert_eq_some hg with ⟨rfl, rfl⟩ | hg
  · exact hf
  · exact h.passes other g hg

theorem postCall (h : rule.Conforms typeOf sig tame) {f : PostCall V}
    (hf : (rule.layout typeOf sig).Takes (sig.takes name) f) :
    (rule.postCall name f).Conforms typeOf sig tame := by
  refine ⟨h.actions, h.passes, fun other g hg => ?_⟩
  rcases Bindings.get?_insert_eq_some hg with ⟨rfl, rfl⟩ | hg
  · exact hf
  · exact h.takes other g hg

/-- The value of a call that becomes the value of the rule must have its type. -/
theorem yields (h : rule.Conforms typeOf sig tame) (hown : (sig.takes name).own = true)
    (hfills : (sig.takes name).fills = [.value]) : (rule.yields name).Conforms typeOf sig tame := by
  refine h.postCall fun ctx v _ hv => ⟨Layout.keeps_setValue (hv hown), ?_⟩
  rw [hfills]
  exact Layout.knows_singleton.2 (Layout.filled_setValue (hv hown))

/-- Attributes that are passed on have the types they are declared with. -/
theorem forward (h : rule.Conforms typeOf sig tame) {names : List String}
    (hslots : ∀ n ∈ names, .var n ∈ rule.attributeSlots)
    (htypes : names.filterMap (fun n => rule.slotType sig (.var n)) = sig.passes name) :
    (rule.forward name names).Conforms typeOf sig tame := by
  let forwarding : Rule V := { rule with
    forwarded := names.foldl (fun fs n => if fs.contains n then fs else fs ++ [n]) rule.forwarded }
  have hforwarding : forwarding.Conforms typeOf sig tame := ⟨h.actions, h.passes, h.takes⟩
  refine hforwarding.preCall fun ctx hctx => ?_
  rw [← htypes, List.map_filterMap]
  refine List.filterMap_congr fun n hn => ?_
  obtain ⟨v, hv, ht⟩ := hctx _ (hslots n hn)
  have hv : ctx.get? n = some v := hv
  have ht : rule.slotType sig (.var n) = some (typeOf v) := ht
  rw [hv, ht]
  rfl

/-- Neither the pattern nor the grammar of a rule matters to its hooks. -/
theorem redefine (h : rule.Conforms typeOf sig tame) (grammar : String) (definition : Pattern) :
    { rule with grammar, definition }.Conforms typeOf sig tame := ⟨h.actions, h.passes, h.takes⟩

end Rule.Conforms

/-! ## Checking patterns -/

def Effect.after (e : Effect) (known : List Slot) : Option (List Slot) :=
  if e.needs.all known.contains then some (e.fills ++ known) else none

namespace Rule

variable (sig : Signature) (rule callee : Rule V) (c : Call)

/-- Types of the arguments the rule passes to a call. -/
def passed : List String := if (rule.preCall? c.label).isSome then sig.passes c.label else []

/-- What is known after a call of a rule; a value that no hook takes up goes into a variable, which must not
be one that has a type. -/
def taken (known : List Slot) : Option (List Slot) :=
  if !callee.hasValue then some known
  else if (rule.postCall? c.label).isSome then
    if !(sig.takes c.label).own || callee.valueType == rule.valueType then
      (sig.takes c.label).after known
    else none
  else if (rule.slotType sig (.var c.label)).isNone then some known
  else none

end Rule

/-- What is known after a match of a pattern, from what was known before it; nothing if the pattern may run
a hook that needs more. -/
def Pattern.learns (rules : Array (Rule V)) (sig : Signature) (rule : Rule V) :
    Pattern → List Slot → Option (List Slot)
  | .empty, known | .one _, known | .text _, known | .keyword _, known => some known
  | .keywords p _, known | .many1 p, known | .expect p, known | .token p, known | .lookahead p, known =>
    p.learns rules sig rule known
  | .opt p, known | .many p, known | .notAhead p, known => do
    let _ ← p.learns rules sig rule known
    return known
  | .seq a b, known => do
    let middle ← a.learns rules sig rule known
    b.learns rules sig rule middle
  | .alt a b, known => do
    let first ← a.learns rules sig rule known
    let second ← b.learns rules sig rule known
    return first.filter second.contains
  | .diff a b, known | .list a b, known => do
    let first ← a.learns rules sig rule known
    let _ ← b.learns rules sig rule first
    return first
  | .act action p, known => do
    let matched ← p.learns rules sig rule known
    if (rule.action? action).isSome then (sig.actions action).after matched else none
  | .call c, known => do
    let callee ← rules[← c.target]?
    if c.arity = callee.arity ∧ rule.passed sig c = callee.attributes.map (·.typeName) then
      rule.taken sig callee c known
    else none

/-- The attributes of the rule are distinct and its value is known when it matches. -/
def Rule.checks (rules : Array (Rule V)) (sig : Signature) (rule : Rule V) : Bool :=
  decide (rule.attributes.map (·.name)).Nodup &&
    (rule.definition.learns rules sig rule []).any fun known => !rule.hasValue || known.contains .value

end PegFront
