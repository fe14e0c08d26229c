import PegFront.Proofs.Cminor.Blocks
import PegFront.Proofs.Cminor.Functions
import PegFront.Proofs.Cminor.Rendering

/-!
# Compile units written out

`CompileUnit.render` writes a compile unit as text, token after token with a space between any two. As for expressions,
the text reads back as the tree, spans apart: a statement without a leading keyword is not taken for one of another kind,
and an `else` goes to the `if` it was written for.
-/

namespace PegFront.Cminor

/-! ## Reading back -/

section
variable {α : Type} {R : Nat → List Char → α → Prop} {erase : α → α} {text : α → List Char}

/-- A text reads back as a value, spans apart, wherever it stands. -/
def ReadBack (R : Nat → List Char → α → Prop) (erase : α → α) (x : List Char) (a : α) : Prop :=
  ∀ o, ∃ a', R o x a' ∧ erase a' = erase a

/-- A part that may be left out, behind a space. -/
def spaced : Option (List Char) → List Char
  | none => []
  | some x => [' '] ++ x

theorem ReadBack.optionally {v : Option α} (h : ∀ a ∈ v, ReadBack R erase (text a) a) :
    ReadBack (Optionally R) (Option.map erase) (spaced (v.map text)) v := by
  intro o
  cases v with
  | none => exact ⟨none, .none, rfl⟩
  | some a =>
    obtain ⟨a', ha, herase⟩ := h a rfl (o + Text.byteLength [' '])
    exact ⟨some a', .some gap_space rfl ha, congrArg some herase⟩

/-- Values one after the other, each set off by the same text. -/
theorem exists_row {Sets : List Char → Prop} {lead : List Char} (hlead : Sets lead) (vs : List α)
    (h : ∀ a ∈ vs, ReadBack R erase (text a) a) : ∀ o, ∃ as : List (Element α), Element.Placed Sets o as ∧
      (∀ a ∈ as, R a.start a.text a.value) ∧ Element.written as = (vs.map text).flatMap (lead ++ ·) ∧
      (as.map (·.value)).map erase = vs.map erase := by
  induction vs with
  | nil => exact fun _ => ⟨[], trivial, fun _ h => absurd h List.not_mem_nil, rfl, rfl⟩
  | cons v vs ih =>
    intro o
    obtain ⟨hv, hvs⟩ := List.forall_mem_cons.1 h
    obtain ⟨a, ha, herase⟩ := hv (o + Text.byteLength lead)
    obtain ⟨as, hp, has, hwritten, hvalues⟩ := ih hvs (o + Text.byteLength lead + Text.byteLength (text v))
    refine ⟨⟨lead, _, text v, a⟩ :: as, ⟨hlead, rfl, hp⟩, List.forall_mem_cons.2 ⟨ha, has⟩, ?_, ?_⟩
    · rw [List.map_cons, List.flatMap_cons, ← hwritten]
      rfl
    · rw [List.map_cons, List.map_cons, List.map_cons, hvalues, herase]

end

/-! ## Types -/

/-- Names with dots between them and nothing else. -/
def isDotted (x : List Char) : Bool := (x.splitOn '.').all isName

theorem dotted_of_isDotted {x : List Char} (h : isDotted x = true) : Dotted x := by
  have hdotted : ∀ xs : List (List Char), xs ≠ [] → (∀ y ∈ xs, isName y = true) → Dotted (['.'].intercalate xs) := by
    intro xs hne hall
    induction xs with
    | nil => exact absurd rfl hne
    | cons y xs ih =>
      obtain ⟨hy, hall⟩ := List.forall_mem_cons.1 hall
      cases xs with
      | nil => simpa [List.intercalate] using Dotted.name hy
      | cons z xs => simpa [List.intercalate] using Dotted.more hy (ih (List.cons_ne_nil _ _) hall)
  have hsplit := hdotted (x.splitOn '.') (List.splitOn_ne_nil _ _) (List.all_eq_true.1 h)
  rwa [List.intercalate_splitOn] at hsplit

namespace TypeExpr

def render : TypeExpr → List Char
  | .basic t _ => t.keyword.toList
  | .named id _ => id.name.toList
  | .array t _ => t.render ++ [' '] ++ ['['] ++ [' '] ++ [']']

/-- The names are dotted words that are no keywords. -/
def isWritable : TypeExpr → Bool
  | .basic .. => true
  | .named id _ => isDotted id.name.toList
  | .array t _ => t.isWritable

/-- A type without its spans. -/
abbrev bare (t : TypeExpr) : TypeExpr := t.mapSpans fun _ => default

theorem text_render {f : Nat} {t : TypeExpr} (h : t.isWritable = true) : ReadBack (TypeText f) bare t.render t := by
  intro o
  induction t with
  | basic t s => exact ⟨_, .basic t, rfl⟩
  | named id s =>
    exact ⟨_, .named (dotted_of_isDotted h), congrArg (TypeExpr.named ⟨·, default⟩ default) String.ofList_toList⟩
  | array t s ih =>
    obtain ⟨t', ht, hbare⟩ := ih h
    exact ⟨_, .array ht gap_space gap_space, congrArg (TypeExpr.array · default) hbare⟩

end TypeExpr

/-! ## Expressions in statements -/

namespace Expr

/-- The text of an expression behind the sign of an assignment. -/
def assigned (e : Expr) : List Char := ['='] ++ [' '] ++ e.render

/-- The text of an expression in parentheses. -/
def enclosed (e : Expr) : List Char := ['('] ++ [' '] ++ e.render ++ [' '] ++ [')']

section
variable {f : Nat} {e : Expr}

theorem text_render (h : e.isWritable = true) : ReadBack (Reads f false 0) bare e.render e := by
  intro o
  obtain ⟨e', hreads, hbare⟩ := reads_render e h false (.inl rfl) o
  exact ⟨e', hreads.loosen (Nat.zero_le _), hbare⟩

theorem texts_render {v : Option Expr} (h : v.all isWritable = true) :
    ReadBack (Optionally (Reads f false 0)) (Option.map bare) (spaced (v.map render)) v :=
  .optionally fun _ ha => text_render (Option.all_eq_true _ _ |>.1 h _ ha)

theorem text_assigned (h : e.isWritable = true) : ReadBack (Assigned f) bare (assigned e) e := by
  intro o
  obtain ⟨e', hreads, hbare⟩ := text_render h (o + Text.byteLength (['='] ++ [' ']))
  exact ⟨e', .mk gap_space rfl hreads, hbare⟩

theorem text_enclosed (h : e.isWritable = true) : ReadBack (Enclosed f) bare (enclosed e) e := by
  intro o
  obtain ⟨e', hreads, hbare⟩ := text_render h (o + Text.byteLength (['('] ++ [' ']))
  exact ⟨e', .mk gap_space rfl hreads gap_space, hbare⟩

end

end Expr

/-! ## Statements -/

namespace Statement

/-- Induction over a statement and those in it. -/
theorem induct {P : Statement → Prop} (compound : ∀ items s, (∀ i ∈ items, P i) → P (.compound items s))
    (expression : ∀ e s, P (.expression e s)) (assignment : ∀ target value s, P (.assignment target value s))
    (construction : ∀ t id init s, P (.construction t id init s))
    (ifElse : ∀ e b b' s, P b → (∀ i ∈ b', P i) → P (.ifElse e b b' s)) (whileLoop : ∀ e b s, P b → P (.whileLoop e b s))
    (doWhile : ∀ b e s, P b → P (.doWhile b e s))
    (forLoop : ∀ init e step b s, (∀ i ∈ init, P i) → (∀ i ∈ step, P i) → P b → P (.forLoop init e step b s))
    (ret : ∀ e s, P (.ret e s)) (breakLoop : ∀ s, P (.breakLoop s)) (continueLoop : ∀ s, P (.continueLoop s))
    (empty : ∀ s, P (.empty s)) (s : Statement) : P s :=
  @Statement.rec P (fun items => ∀ i ∈ items, P i) (fun b => ∀ i ∈ b, P i) compound expression assignment construction
    ifElse whileLoop doWhile forLoop ret breakLoop continueLoop empty (fun _ h => absurd h List.not_mem_nil)
    (fun _ _ head tail => List.forall_mem_cons.2 ⟨head, tail⟩) (fun _ h => nomatch h)
    (fun _ h _ hi => Option.some.inj hi ▸ h) s

/-- The text of a declaration, assignment or expression without the semicolon. -/
def renderBody : Statement → List Char
  | .construction t id init _ => t.render ++ [' '] ++ id.name.toList ++ spaced (init.map Expr.assigned)
  | .assignment target value _ => target.render ++ [' '] ++ value.assigned
  | .expression e _ => e.render
  | _ => []

mutual

/-- The text of a statement. -/
def render : Statement → List Char
  | .compound items _ => ['\x7b'] ++ (renderAll items).flatMap ([' '] ++ ·) ++ [' '] ++ ['\x7d']
  | .ifElse e b b' _ => "if".toList ++ [' '] ++ e.enclosed ++ [' '] ++ render b ++ renderElse b'
  | .whileLoop e b _ => "while".toList ++ [' '] ++ e.enclosed ++ [' '] ++ render b
  | .doWhile b e _ =>
    "do".toList ++ [' '] ++ render b ++ [' '] ++ "while".toList ++ [' '] ++ e.enclosed ++ [' '] ++ [';']
  | .forLoop init e step b _ =>
    "for".toList ++ [' '] ++ ['('] ++ spaced (init.map renderBody) ++ [' '] ++ [';'] ++ spaced (e.map Expr.render) ++ [' '] ++
      [';'] ++ spaced (step.map renderBody) ++ [' '] ++ [')'] ++ [' '] ++ render b
  | .ret e _ => "return".toList ++ spaced (e.map Expr.render) ++ [' '] ++ [';']
  | .breakLoop _ => "break".toList ++ [' '] ++ [';']
  | .continueLoop _ => "continue".toList ++ [' '] ++ [';']
  | .empty _ => [';']
  | .construction t id init s => renderBody (.construction t id init s) ++ [' '] ++ [';']
  | .assignment target value s => renderBody (.assignment target value s) ++ [' '] ++ [';']
  | .expression e s => renderBody (.expression e s) ++ [' '] ++ [';']

def renderAll : List Statement → List (List Char)
  | [] => []
  | s :: ss => render s :: renderAll ss

def renderElse : Option Statement → List Char
  | none => []
  | some s => [' '] ++ "else".toList ++ [' '] ++ render s

end

/-- A declaration, an assignment to a target or an expression whose text begins with no parenthesis. -/
def isWritableBody : Statement → Bool
  | .construction t id init _ => t.isWritable && isName id.name.toList && init.all Expr.isWritable
  | .assignment target value _ => target.isWritable && target.isTarget && value.isWritable
  | .expression e _ => e.isWritable && e.render.head? != some '('
  | _ => false

mutual

/-- Names are words that are no keywords, literals can be written, no `else` is taken by another `if`, and the heads of
loops hold what may stand there. -/
def isWritable : Statement → Bool
  | .compound items _ => allWritable items
  | .ifElse e b b' _ => e.isWritable && isWritable b && (b'.isNone || !b.endsOpen) && elseWritable b'
  | .whileLoop e b _ => e.isWritable && isWritable b
  | .doWhile b e _ => isWritable b && e.isWritable
  | .forLoop init e step b _ =>
    init.all isWritableBody && e.all Expr.isWritable && step.all (fun s => isWritableBody s && !s.isConstruction) &&
      isWritable b
  | .ret e _ => e.all Expr.isWritable
  | .breakLoop _ | .continueLoop _ | .empty _ => true
  | .construction t id init s => isWritableBody (.construction t id init s)
  | .assignment target value s => isWritableBody (.assignment target value s)
  | .expression e s => isWritableBody (.expression e s)

def allWritable : List Statement → Bool
  | [] => true
  | s :: ss => isWritable s && allWritable ss

def elseWritable : Option Statement → Bool
  | none => true
  | some s => isWritable s

end

/-- A statement without its spans. -/
abbrev bare (s : Statement) : Statement := s.mapSpans fun _ => default

theorem renderAll_eq (ss : List Statement) : renderAll ss = ss.map render := by
  induction ss with
  | nil => rfl
  | cons s ss ih => rw [renderAll, ih, List.map_cons]

theorem allWritable_eq (ss : List Statement) : allWritable ss = ss.all isWritable := by
  induction ss with
  | nil => rfl
  | cons s ss ih => rw [allWritable, ih, List.all_cons]

theorem isConstruction_of_bare {s s' : Statement} (h : s.bare = s'.bare) : s.isConstruction = s'.isConstruction := by
  rw [← isConstruction_mapSpans (fun _ => default) s, ← isConstruction_mapSpans (fun _ => default) s']
  exact congrArg isConstruction h

theorem endsOpen_of_bare {s s' : Statement} (h : s.bare = s'.bare) : s.endsOpen = s'.endsOpen := by
  rw [← endsOpen_mapSpans (fun _ => default) s, ← endsOpen_mapSpans (fun _ => default) s']
  exact congrArg endsOpen h

theorem bare_withSpan (s : Statement) (span : Span) : (s.withSpan span).bare = s.bare := by cases s <;> rfl

theorem eq_compound_of_bare {s s' : Statement} (h : s.bare = s'.bare) (hs : s'.children?.isSome = true) :
    ∃ items span, s = .compound items span := by
  cases s' with
  | compound =>
    cases s with
    | compound items span => exact ⟨items, span, rfl⟩
    | _ => cases h
  | _ => cases hs

section
variable {f : Nat} {s : Statement}

theorem body_render (h : s.isWritableBody = true) : ReadBack (BodyText f) bare s.renderBody s := by
  intro o
  cases s with
  | construction t id init span =>
    simp only [isWritableBody, Bool.and_eq_true] at h
    obtain ⟨⟨ht, hid⟩, hinit⟩ := h
    obtain ⟨t', htext, htb⟩ := TypeExpr.text_render ht o
    obtain ⟨i, hi, hib⟩ := ReadBack.optionally (R := Assigned f) (v := init)
      (fun _ ha => Expr.text_assigned (Option.all_eq_true _ _ |>.1 hinit _ ha))
      (o + Text.byteLength (t.render ++ [' '] ++ id.name.toList))
    refine ⟨_, .construction htext gap_space (.inr (by simp)) hid rfl rfl hi, ?_⟩
    simp only [bare, TypeExpr.bare, mapSpans, Identifier.mapSpan, String.ofList_toList] at htb ⊢
    rw [htb, hib]
  | assignment target value span =>
    simp only [isWritableBody, Bool.and_eq_true] at h
    obtain ⟨⟨htarget, his⟩, hvalue⟩ := h
    obtain ⟨e, he, heb⟩ := Expr.reads_render target htarget true (.inr his) o
    obtain ⟨e', he', heb'⟩ := Expr.text_assigned hvalue (o + Text.byteLength (target.render ++ [' ']))
    have hlevel : 8 ≤ target.level := by
      cases target <;> first | exact Nat.le_refl _ | exact Nat.le_succ _ | cases his
    exact ⟨_, .assignment (he.loosen hlevel) gap_space rfl he', congrArg₂ (Statement.assignment · · default) heb heb'⟩
  | expression e span =>
    simp only [isWritableBody, Bool.and_eq_true, bne_iff_ne, ne_eq] at h
    obtain ⟨e', he, hbare⟩ := Expr.text_render h.1 o
    exact ⟨_, .expression he (unstopped_of_head h.2), congrArg (Statement.expression · default) hbare⟩
  | _ => cases h

theorem bodies_render {v : Option Statement} (h : v.all isWritableBody = true) :
    ReadBack (Optionally (BodyText f)) (Option.map bare) (spaced (v.map renderBody)) v :=
  .optionally fun _ ha => body_render (Option.all_eq_true _ _ |>.1 h _ ha)

theorem steps_render {v : Option Statement} (h : v.all (fun s => isWritableBody s && !s.isConstruction) = true) :
    ReadBack (Optionally (StepText f)) (Option.map bare) (spaced (v.map renderBody)) v := by
  refine .optionally fun s hs o => ?_
  obtain ⟨hbody, hstep⟩ := Bool.and_eq_true_iff.1 ((Option.all_eq_true _ _).1 h s hs)
  obtain ⟨s', hs', hbare⟩ := body_render hbody o
  refine ⟨s', ⟨hs', ?_⟩, hbare⟩
  rw [isConstruction_of_bare hbare]
  simpa using hstep

/-- A statement before a semicolon. -/
theorem terminated_render (h : s.isWritableBody = true) :
    ReadBack (Says f) bare (s.renderBody ++ [' '] ++ [';']) s := by
  intro o
  obtain ⟨s', hs, hbare⟩ := body_render h o
  exact ⟨_, .body hs gap_space, (bare_withSpan _ _).trans hbare⟩

theorem wordEnd_space (t : List Char) : WordEnd ([' '] ++ t) := wordEnd_gap .nil (by decide) t

/-- The text of a statement is the statement, wherever it stands. -/
theorem says_render (s : Statement) : s.isWritable = true → ReadBack (Says f) bare s.render s := by
  induction s using Statement.induct with
  | compound items span ih =>
    intro h o
    rw [isWritable, allWritable_eq, List.all_eq_true] at h
    obtain ⟨as, hp, has, hwritten, hvalues⟩ := exists_row gap_space items (fun i hi => ih i hi (h i hi))
      (o + Text.byteLength ['\x7b'])
    have hsays := Says.compound (f := f) rfl hp has gap_space
    rw [hwritten, ← renderAll_eq] at hsays
    refine ⟨_, hsays, congrArg (Statement.compound · default) ?_⟩
    rw [mapSpansAll_eq, mapSpansAll_eq]
    exact hvalues
  | expression e span => exact terminated_render
  | assignment target value span => exact terminated_render
  | construction t id init span => exact terminated_render
  | ifElse e b b' span ih ih' =>
    intro h o
    simp only [isWritable, Bool.and_eq_true] at h
    obtain ⟨⟨⟨he, hb⟩, hopen⟩, helse⟩ := h
    obtain ⟨e', hcond, heb⟩ := Expr.text_enclosed (f := f) he (o + Text.byteLength ("if".toList ++ [' ']))
    obtain ⟨s, hs, hsb⟩ := ih hb (o + Text.byteLength ("if".toList ++ [' '] ++ e.enclosed ++ [' ']))
    cases b' with
    | none =>
      have htext : (Statement.ifElse e b none span).render = "if".toList ++ [' '] ++ e.enclosed ++ [' '] ++ b.render :=
        List.append_nil _
      rw [htext]
      exact ⟨_, .ifThen gap_space rfl hcond gap_space rfl hs, congrArg₂ (Statement.ifElse · · none default) heb hsb⟩
    | some b' =>
      obtain ⟨s', hs', hsb'⟩ := ih' b' rfl helse (o + Text.byteLength
        ("if".toList ++ [' '] ++ e.enclosed ++ [' '] ++ b.render ++ [' '] ++ "else".toList ++ [' ']))
      have hclosed : s.endsOpen = false := by
        rw [endsOpen_of_bare hsb]
        simpa using hopen
      have hsays := Says.ifElse gap_space rfl hcond gap_space rfl hs hclosed gap_space gap_space (wordEnd_space _) rfl hs'
      have htext : (Statement.ifElse e b (some b') span).render =
          "if".toList ++ [' '] ++ e.enclosed ++ [' '] ++ b.render ++ ([' '] ++ "else".toList ++ [' '] ++ b'.render) := rfl
      rw [htext]
      simp only [List.append_assoc] at hsays ⊢
      exact ⟨_, hsays, congrArg₂ (fun e (p : Statement × Statement) => Statement.ifElse e p.1 (some p.2) default) heb
        (congrArg₂ Prod.mk hsb hsb')⟩
  | whileLoop e b span ih =>
    intro h o
    obtain ⟨he, hb⟩ := Bool.and_eq_true_iff.1 h
    obtain ⟨e', hcond, heb⟩ := Expr.text_enclosed (f := f) he (o + Text.byteLength ("while".toList ++ [' ']))
    obtain ⟨s, hs, hsb⟩ := ih hb (o + Text.byteLength ("while".toList ++ [' '] ++ e.enclosed ++ [' ']))
    exact ⟨_, .whileLoop gap_space rfl hcond gap_space rfl hs, congrArg₂ (Statement.whileLoop · · default) heb hsb⟩
  | doWhile b e span ih =>
    intro h o
    obtain ⟨hb, he⟩ := Bool.and_eq_true_iff.1 h
    obtain ⟨s, hs, hsb⟩ := ih hb (o + Text.byteLength ("do".toList ++ [' ']))
    obtain ⟨e', hcond, heb⟩ := Expr.text_enclosed (f := f) he
      (o + Text.byteLength ("do".toList ++ [' '] ++ b.render ++ [' '] ++ "while".toList ++ [' ']))
    exact ⟨_, .doWhile gap_space (wordEnd_space _) rfl hs gap_space gap_space rfl hcond gap_space,
      congrArg₂ (Statement.doWhile · · default) hsb heb⟩
  | forLoop init e step b span _ _ ih =>
    intro h o
    simp only [isWritable, Bool.and_eq_true] at h
    obtain ⟨⟨⟨hinit, he⟩, hstep⟩, hb⟩ := h
    obtain ⟨i, hi, hib⟩ := bodies_render hinit (o + Text.byteLength ("for".toList ++ [' '] ++ ['(']))
    obtain ⟨c, hc, hcb⟩ := Expr.texts_render he (o + Text.byteLength
      ("for".toList ++ [' '] ++ ['('] ++ spaced (init.map renderBody) ++ [' '] ++ [';']))
    obtain ⟨p, hp, hpb⟩ := steps_render hstep (o + Text.byteLength ("for".toList ++ [' '] ++ ['('] ++
      spaced (init.map renderBody) ++ [' '] ++ [';'] ++ spaced (e.map Expr.render) ++ [' '] ++ [';']))
    obtain ⟨s, hs, hsb⟩ := ih hb (o + Text.byteLength ("for".toList ++ [' '] ++ ['('] ++ spaced (init.map renderBody) ++
      [' '] ++ [';'] ++ spaced (e.map Expr.render) ++ [' '] ++ [';'] ++ spaced (step.map renderBody) ++ [' '] ++ [')'] ++ [' ']))
    refine ⟨_, .forLoop gap_space rfl hi gap_space rfl hc gap_space rfl hp gap_space gap_space rfl hs, ?_⟩
    simp only [bare, mapSpans, mapSpans?_eq] at hib hcb hpb hsb ⊢
    rw [hib, hcb, hpb, hsb]
  | ret e span =>
    intro h o
    obtain ⟨v, hv, hvb⟩ := Expr.texts_render h (o + Text.byteLength "return".toList)
    have hend : WordEnd (spaced (e.map Expr.render) ++ [' '] ++ [';']) := by
      cases e with
      | none => exact wordEnd_space _
      | some e =>
        rw [Option.map_some, spaced, List.append_assoc, List.append_assoc]
        exact wordEnd_space _
    exact ⟨_, .ret rfl hv hend gap_space, congrArg (Statement.ret · default) hvb⟩
  | breakLoop span => exact fun _ _ => ⟨_, .breakLoop gap_space, rfl⟩
  | continueLoop span => exact fun _ _ => ⟨_, .continueLoop gap_space, rfl⟩
  | empty span => exact fun _ _ => ⟨_, .empty, rfl⟩

end

end Statement

/-! ## Functions -/

/-- The text of a type and the name of what it is the type of. -/
def declared (t : TypeExpr) (id : Identifier) : List Char := t.render ++ [' '] ++ id.name.toList

theorem text_declared {f : Nat} {t : TypeExpr} {id : Identifier} (ht : t.isWritable = true)
    (hid : isName id.name.toList = true) (o : Nat) : ∃ t' id', DeclaredText f o (declared t id) t' id' ∧
      t'.bare = t.bare ∧ id'.mapSpan (fun _ => default) = id.mapSpan fun _ => default := by
  obtain ⟨t', htext, hbare⟩ := TypeExpr.text_render ht o
  exact ⟨t', _, .mk htext gap_space (.inr (by simp)) hid rfl, hbare, congrArg (Identifier.mk · default) String.ofList_toList⟩

namespace Parameter

def render (p : Parameter) : List Char := declared p.type p.name

def isWritable (p : Parameter) : Bool := p.type.isWritable && isName p.name.name.toList

abbrev bare (p : Parameter) : Parameter := p.mapSpans fun _ => default

theorem text_render {f : Nat} {p : Parameter} (h : p.isWritable = true) : ReadBack (ParameterText f) bare p.render p := by
  intro o
  obtain ⟨ht, hid⟩ := Bool.and_eq_true_iff.1 h
  obtain ⟨t, id, hdeclared, htb, hidb⟩ := text_declared ht hid o
  exact ⟨_, .mk hdeclared, congrArg₂ (Parameter.mk · · default) htb hidb⟩

/-- The parameters of a function, if there are any. -/
theorem text_listed {f : Nat} {ps : List Parameter} (h : ps.all isWritable = true) (o : Nat) :
    ∃ ps', Optionally (ParametersText f) o (listed (ps.map render)) ps' ∧ (ps'.getD []).map bare = ps.map bare := by
  rw [List.all_eq_true] at h
  cases ps with
  | nil => exact ⟨none, .none, rfl⟩
  | cons p ps =>
    obtain ⟨hp, hps⟩ := List.forall_mem_cons.1 h
    have hcomma : Comma ([' '] ++ [','] ++ [' ']) := ⟨_, _, gap_space, gap_space, rfl⟩
    obtain ⟨p', htext, hbare⟩ := text_render (f := f) hp (o + Text.byteLength [' '])
    obtain ⟨as, hplaced, has, hwritten, hvalues⟩ := exists_row (R := ParameterText f) hcomma ps
      (fun q hq => text_render (hps q hq)) (o + Text.byteLength [' '] + Text.byteLength p.render)
    have hall := Optionally.some gap_space rfl (ParametersText.mk htext rfl hplaced has)
    rw [hwritten] at hall
    exact ⟨_, hall, congrArg₂ List.cons hbare hvalues⟩

end Parameter

namespace FunctionDef

def render (fn : FunctionDef) : List Char :=
  declared fn.returnType fn.name ++ [' '] ++ ['('] ++ listed (fn.parameters.map Parameter.render) ++ [' '] ++ [')'] ++ [' '] ++
    fn.body.render

def isWritable (fn : FunctionDef) : Bool :=
  fn.returnType.isWritable && isName fn.name.name.toList && fn.parameters.all Parameter.isWritable &&
    fn.body.children?.isSome && fn.body.isWritable

abbrev bare (fn : FunctionDef) : FunctionDef := fn.mapSpans fun _ => default

theorem text_render {f : Nat} {fn : FunctionDef} (h : fn.isWritable = true) :
    ReadBack (FunctionText f) bare fn.render fn := by
  intro o
  simp only [isWritable, Bool.and_eq_true] at h
  obtain ⟨⟨⟨⟨ht, hid⟩, hps⟩, hblock⟩, hbody⟩ := h
  obtain ⟨t, id, hdeclared, htb, hidb⟩ := text_declared ht hid o
  obtain ⟨ps, hparameters, hpsb⟩ := Parameter.text_listed hps
    (o + Text.byteLength (declared fn.returnType fn.name ++ [' '] ++ ['(']))
  obtain ⟨s, hs, hsb⟩ := Statement.says_render fn.body hbody (o + Text.byteLength (declared fn.returnType fn.name ++ [' '] ++
    ['('] ++ listed (fn.parameters.map Parameter.render) ++ [' '] ++ [')'] ++ [' ']))
  obtain ⟨items, span, rfl⟩ := Statement.eq_compound_of_bare hsb hblock
  refine ⟨_, .mk hdeclared gap_space rfl hparameters gap_space gap_space rfl hs, ?_⟩
  simp only [bare, mapSpans, TypeExpr.bare, Statement.bare] at htb hidb hpsb hsb ⊢
  rw [htb, hidb, hpsb, hsb]

end FunctionDef

/-! ## Compile units -/

namespace CompileUnit

def render (u : CompileUnit) : List Char :=
  match u.functions with
  | [] => []
  | fn :: fns => fn.render ++ (fns.map FunctionDef.render).flatMap ([' '] ++ ·)

def isWritable (u : CompileUnit) : Bool := u.functions.all FunctionDef.isWritable

/-- A compile unit without its spans. -/
abbrev bare (u : CompileUnit) : CompileUnit := u.mapSpans fun _ => default

theorem text_render {f : Nat} {u : CompileUnit} (h : u.isWritable = true) :
    ReadBack (UnitText f u.file) bare u.render u := by
  intro o
  obtain ⟨file, fns, span⟩ := u
  rw [isWritable, List.all_eq_true] at h
  cases fns with
  | nil => exact ⟨_, .empty, rfl⟩
  | cons fn fns =>
    obtain ⟨hfn, hfns⟩ := List.forall_mem_cons.1 h
    obtain ⟨fn', htext, hbare⟩ := FunctionDef.text_render (f := f) hfn o
    obtain ⟨as, hplaced, has, hwritten, hvalues⟩ := exists_row (R := FunctionText f) gap_space fns
      (fun g hg => FunctionDef.text_render (hfns g hg)) (o + Text.byteLength fn.render)
    have hall : UnitText f file o _ _ := .functions htext rfl hplaced has
    rw [hwritten] at hall
    exact ⟨_, hall, congrArg (CompileUnit.mk file · default) (congrArg₂ List.cons hbare hvalues)⟩

end CompileUnit

theorem UnitText.solid {f o : Nat} {file : String} {x : List Char} {u : CompileUnit} (h : UnitText f file o x u) :
    Solid x := by
  cases h with
  | empty => rfl
  | functions h => exact h.solid _

/-- The text of a compile unit parses as that compile unit. -/
theorem parseCompileUnit_render (u : CompileUnit) (h : u.isWritable = true) (fileIndex : Nat) :
    ∃ u', parseCompileUnit (String.ofList u.render) fileIndex u.file = .ok u' ∧ u'.bare = u.bare := by
  obtain ⟨u', htext, hbare⟩ := CompileUnit.text_render (f := fileIndex) h 0
  refine ⟨u', parseCompileUnit_eq_ok_iff.2 ⟨[], u.render, [], ?_, ?_, htext, rfl⟩, hbare⟩
  · rw [String.toList_ofList, List.nil_append, List.append_nil]
  · rw [String.toList_ofList, List.append_nil]
    exact htext.solid

/-- A loop, an `if` in the branch of another, and a function without parameters. -/
def twoFunctions : CompileUnit :=
  let word (x : String) : Expr := .name ⟨x, default⟩ default
  let int : TypeExpr := .basic .int default
  let head : Statement := .forLoop (some (.construction int ⟨"i", default⟩ (some (.literal (.int 0) default)) default))
    (some (.binary .less (word "i") (word "n") default))
    (some (.assignment (word "i") (.binary .add (word "i") (.literal (.int 1) default) default) default))
    (.ifElse (word "n")
      (.compound [.ifElse (word "x") (.expression (.invoke (word "g") [] default) default) none default] default)
      (some (.ret (some (.index (word "x") (word "i") default)) default)) default) default
  ⟨"f", [⟨int, ⟨"f", default⟩,
      [⟨.array (.named ⟨"a.b", default⟩ default) default, ⟨"x", default⟩, default⟩, ⟨int, ⟨"n", default⟩, default⟩],
      .compound [head, .doWhile (.empty default) (word "n") default] default, default⟩,
    ⟨.basic .void default, ⟨"g", default⟩, [], .compound [] default, default⟩], default⟩

theorem parseCompileUnit_render_sample : ∃ u', parseCompileUnit
    ("int f ( a.b [ ] x , int n ) \x7b for ( int i = 0 ; i < n ; i = i + 1 ) if ( n ) \x7b if ( x ) g ( ) ; \x7d " ++
      "else return x [ i ] ; do ; while ( n ) ; \x7d void g ( ) \x7b \x7d") 0 "f" = .ok u' ∧
    u'.bare = twoFunctions.bare := by
  have htext : twoFunctions.render =
      "int f ( a.b [ ] x , int n ) \x7b for ( int i = 0 ; i < n ; i = i + 1 ) if ( n ) \x7b if ( x ) g ( ) ; \x7d ".toList ++
        "else return x [ i ] ; do ; while ( n ) ; \x7d void g ( ) \x7b \x7d".toList := by decide +kernel
  have hparse := parseCompileUnit_render twoFunctions (by decide) 0
  rwa [htext, String.ofList_append, String.ofList_toList, String.ofList_toList] at hparse

end PegFront.Cminor
