import PegFront.Proofs.Cminor.ExpressionStatements

/-!
# The grammar of statements on texts

`Says f o x s` says that the text `x`, standing at the offset `o` of the file `f`, is a statement and `s` its tree, spans
included; `TypeText` and `BodyText` say the same of types and of what stands before a semicolon. The only thing a
statement asks of the text after it is that an `if` without `else` at its end is not followed by one (`Follows`).
-/

namespace PegFront.Cminor

/-! ## Parts of a text -/

/-- A part of a text behind what sets it off from the part before. -/
structure Element (α : Type) where
  lead : List Char
  start : Nat
  text : List Char
  value : α

namespace Element

variable {α : Type}

def written (as : List (Element α)) : List Char := as.flatMap fun a => a.lead ++ a.text

/-- The parts stand one after the other, set off as they must be. -/
def Placed (Sets : List Char → Prop) : Nat → List (Element α) → Prop
  | _, [] => True
  | o, a :: as => Sets a.lead ∧ a.start = o + Text.byteLength a.lead ∧ Placed Sets (a.start + Text.byteLength a.text) as

end Element

/-- A part that may be left out. -/
inductive Optionally {α : Type} (R : Nat → List Char → α → Prop) (o : Nat) : List Char → Option α → Prop
  | none : Optionally R o [] none
  | some {o' g x a} (hg : Gap g) (ho : o' = o + Text.byteLength g) (h : R o' x a) : Optionally R o (g ++ x) (some a)

/-- An expression in parentheses. -/
inductive Enclosed (f o : Nat) : List Char → Expr → Prop
  | mk {o' g x g' e} (hg : Gap g) (ho : o' = o + Text.byteLength (['('] ++ g)) (h : Reads f false 0 o' x e) (hg' : Gap g') :
      Enclosed f o (['('] ++ g ++ x ++ g' ++ [')']) e

/-- An expression behind the sign of an assignment. -/
inductive Assigned (f o : Nat) : List Char → Expr → Prop
  | mk {o' g x e} (hg : Gap g) (ho : o' = o + Text.byteLength (['='] ++ g)) (h : Reads f false 0 o' x e) :
      Assigned f o (['='] ++ g ++ x) e

/-! ## Types -/

inductive TypeText (f o : Nat) : List Char → TypeExpr → Prop
  | basic (t : BasicType) : TypeText f o t.keyword.toList (.basic t (spanAt f o t.keyword.toList))
  | named {x} (h : Dotted x) : TypeText f o x (.named ⟨String.ofList x, spanAt f o x⟩ (spanAt f o x))
  | array {x g g' t} (h : TypeText f o x t) (hg : Gap g) (hg' : Gap g') :
      TypeText f o (x ++ g ++ ['['] ++ g' ++ [']']) (.array t (spanAt f o (x ++ g ++ ['['] ++ g' ++ [']'])))

def TypeExpr.isArray : TypeExpr → Bool
  | .array .. => true
  | _ => false

/-! ## Statements -/

def Statement.isConstruction : Statement → Bool
  | .construction .. => true
  | _ => false

/-- Whether an `else` after the statement would belong to it. -/
def Statement.endsOpen : Statement → Bool
  | .ifElse _ _ none _ => true
  | .ifElse _ _ (some s) _ => s.endsOpen
  | .whileLoop _ s _ => s.endsOpen
  | .forLoop _ _ _ s _ => s.endsOpen
  | _ => false

/-- What stands before a semicolon or in the head of a loop. -/
inductive BodyText (f o : Nat) : List Char → Statement → Prop
  -- A name right behind a word would belong to it.
  | construction {o' o'' x g y i t init} (hx : TypeText f o x t) (hg : Gap g) (hsep : t.isArray = true ∨ g ≠ [])
      (hy : isName y = true) (ho : o' = o + Text.byteLength (x ++ g)) (ho' : o'' = o + Text.byteLength (x ++ g ++ y))
      (hi : Optionally (Assigned f) o'' i init) :
      BodyText f o (x ++ g ++ y ++ i)
        (.construction t ⟨String.ofList y, spanAt f o' y⟩ init (spanAt f o (x ++ g ++ y ++ i)))
  | assignment {o' x g y e e'} (hx : Reads f true 8 o x e) (hg : Gap g) (ho : o' = o + Text.byteLength (x ++ g))
      (hy : Assigned f o' y e') : BodyText f o (x ++ g ++ y) (.assignment e e' (spanAt f o (x ++ g ++ y)))
  | expression {x e} (hx : Reads f false 0 o x e) (hu : Unstopped f o x) :
      BodyText f o x (.expression e (spanAt f o x))

/-- What may stand at the end of the head of a loop. -/
def StepText (f o : Nat) (x : List Char) (s : Statement) : Prop := BodyText f o x s ∧ s.isConstruction = false

inductive Says (f : Nat) : Nat → List Char → Statement → Prop
  | compound {o o' as g} (ho : o' = o + Text.byteLength ['\x7b']) (hp : Element.Placed Gap o' as)
      (has : ∀ a ∈ as, Says f a.start a.text a.value) (hg : Gap g) :
      Says f o (['\x7b'] ++ Element.written as ++ g ++ ['\x7d'])
        (.compound (as.map (·.value)) (spanAt f o (['\x7b'] ++ Element.written as ++ g ++ ['\x7d'])))
  | ifThen {o o₁ o₂ g x g' y e s} (hg : Gap g) (ho₁ : o₁ = o + Text.byteLength ("if".toList ++ g)) (hx : Enclosed f o₁ x e)
      (hg' : Gap g') (ho₂ : o₂ = o + Text.byteLength ("if".toList ++ g ++ x ++ g')) (hy : Says f o₂ y s) :
      Says f o ("if".toList ++ g ++ x ++ g' ++ y) (.ifElse e s none (spanAt f o ("if".toList ++ g ++ x ++ g' ++ y)))
  | ifElse {o o₁ o₂ o₃ g x g' y g₁ g₂ z e s s'} (hg : Gap g) (ho₁ : o₁ = o + Text.byteLength ("if".toList ++ g))
      (hx : Enclosed f o₁ x e) (hg' : Gap g') (ho₂ : o₂ = o + Text.byteLength ("if".toList ++ g ++ x ++ g'))
      (hy : Says f o₂ y s) (hs : s.endsOpen = false) (hg₁ : Gap g₁) (hg₂ : Gap g₂) (hend : WordEnd (g₂ ++ z))
      (ho₃ : o₃ = o + Text.byteLength ("if".toList ++ g ++ x ++ g' ++ y ++ g₁ ++ "else".toList ++ g₂)) (hz : Says f o₃ z s') :
      Says f o ("if".toList ++ g ++ x ++ g' ++ y ++ g₁ ++ "else".toList ++ g₂ ++ z)
        (.ifElse e s (some s') (spanAt f o ("if".toList ++ g ++ x ++ g' ++ y ++ g₁ ++ "else".toList ++ g₂ ++ z)))
  | whileLoop {o o₁ o₂ g x g' y e s} (hg : Gap g) (ho₁ : o₁ = o + Text.byteLength ("while".toList ++ g))
      (hx : Enclosed f o₁ x e) (hg' : Gap g') (ho₂ : o₂ = o + Text.byteLength ("while".toList ++ g ++ x ++ g'))
      (hy : Says f o₂ y s) :
      Says f o ("while".toList ++ g ++ x ++ g' ++ y) (.whileLoop e s (spanAt f o ("while".toList ++ g ++ x ++ g' ++ y)))
  | doWhile {o o₁ o₂ g y g₁ g₂ x g₃ e s} (hg : Gap g) (hend : WordEnd (g ++ y))
      (ho₁ : o₁ = o + Text.byteLength ("do".toList ++ g)) (hy : Says f o₁ y s) (hg₁ : Gap g₁) (hg₂ : Gap g₂)
      (ho₂ : o₂ = o + Text.byteLength ("do".toList ++ g ++ y ++ g₁ ++ "while".toList ++ g₂)) (hx : Enclosed f o₂ x e)
      (hg₃ : Gap g₃) :
      Says f o ("do".toList ++ g ++ y ++ g₁ ++ "while".toList ++ g₂ ++ x ++ g₃ ++ [';'])
        (.doWhile s e (spanAt f o ("do".toList ++ g ++ y ++ g₁ ++ "while".toList ++ g₂ ++ x ++ g₃ ++ [';'])))
  | forLoop {o o₁ o₂ o₃ o₄ g i g₁ c g₂ p g₃ g₄ y init condition step s} (hg : Gap g)
      (ho₁ : o₁ = o + Text.byteLength ("for".toList ++ g ++ ['('])) (hi : Optionally (BodyText f) o₁ i init) (hg₁ : Gap g₁)
      (ho₂ : o₂ = o + Text.byteLength ("for".toList ++ g ++ ['('] ++ i ++ g₁ ++ [';']))
      (hc : Optionally (Reads f false 0) o₂ c condition) (hg₂ : Gap g₂)
      (ho₃ : o₃ = o + Text.byteLength ("for".toList ++ g ++ ['('] ++ i ++ g₁ ++ [';'] ++ c ++ g₂ ++ [';']))
      (hp : Optionally (StepText f) o₃ p step) (hg₃ : Gap g₃) (hg₄ : Gap g₄)
      (ho₄ : o₄ = o + Text.byteLength
        ("for".toList ++ g ++ ['('] ++ i ++ g₁ ++ [';'] ++ c ++ g₂ ++ [';'] ++ p ++ g₃ ++ [')'] ++ g₄))
      (hy : Says f o₄ y s) :
      Says f o ("for".toList ++ g ++ ['('] ++ i ++ g₁ ++ [';'] ++ c ++ g₂ ++ [';'] ++ p ++ g₃ ++ [')'] ++ g₄ ++ y)
        (.forLoop init condition step s (spanAt f o
          ("for".toList ++ g ++ ['('] ++ i ++ g₁ ++ [';'] ++ c ++ g₂ ++ [';'] ++ p ++ g₃ ++ [')'] ++ g₄ ++ y)))
  | ret {o o' x g value} (ho : o' = o + Text.byteLength "return".toList) (hx : Optionally (Reads f false 0) o' x value)
      (hend : WordEnd (x ++ g ++ [';'])) (hg : Gap g) :
      Says f o ("return".toList ++ x ++ g ++ [';']) (.ret value (spanAt f o ("return".toList ++ x ++ g ++ [';'])))
  | breakLoop {o g} (hg : Gap g) :
      Says f o ("break".toList ++ g ++ [';']) (.breakLoop (spanAt f o ("break".toList ++ g ++ [';'])))
  | continueLoop {o g} (hg : Gap g) :
      Says f o ("continue".toList ++ g ++ [';']) (.continueLoop (spanAt f o ("continue".toList ++ g ++ [';'])))
  | body {o x g s} (h : BodyText f o x s) (hg : Gap g) :
      Says f o (x ++ g ++ [';']) (s.withSpan (spanAt f o (x ++ g ++ [';'])))
  | empty {o} : Says f o [';'] (.empty (spanAt f o [';']))

/-- No `else` follows that a statement would take. -/
def Follows (s : Statement) (t : List Char) : Prop :=
  s.endsOpen = true → ∃ r, afterGap t = some r ∧ FirstWord (· ≠ "else") r

/-! ## How statements begin -/

section
variable {f o : Nat} {g x t : List Char} {e : Expr} {s : Statement} {type : TypeExpr}

theorem wordEnd_gap {ch : Char} (hg : Gap g) (hch : Text.isWordChar ch = false) (u : List Char) :
    WordEnd (g ++ ch :: u) := by
  cases g with
  | nil => rintro _ ⟨⟩; exact hch
  | cons ch' g => exact (tokenEnd_of_gap (t := ch' :: g ++ ch :: u) hg.head).word

theorem WordEnd.append {u : List Char} (hu : WordEnd u) (hne : u ≠ []) (t : List Char) : WordEnd (u ++ t) := by
  intro ch hch
  rw [List.head?_append_of_ne_nil _ hne] at hch
  exact hu ch hch

/-- The words a statement without a leading keyword may begin with. -/
def opens (word : String) : Prop := word ∉ keywords ∨ word ∈ standing ∨ word ∈ BasicType.all.map (·.keyword)

theorem opens_apart {word : String} (h : opens word) : word ∉ "else" :: leads := by
  have hall : ∀ word ∈ "else" :: leads, word ∈ keywords ∧ word ∉ standing ∧ word ∉ BasicType.all.map (·.keyword) := by decide
  intro hmem
  obtain ⟨h₁, h₂, h₃⟩ := hall word hmem
  rcases h with h | h | h
  · exact h h₁
  · exact h₂ h
  · exact h₃ h

theorem isWord_keyword (t : BasicType) : isWord t.keyword.toList = true := by cases t <;> decide

theorem Dotted.head (h : Dotted x) : ∃ ch y, x = ch :: y ∧ Text.isWordStart ch = true := by
  cases h with
  | name h => exact head_of_isName h
  | more h =>
    obtain ⟨ch, y, rfl, hch⟩ := head_of_isName h
    exact ⟨ch, _, rfl, hch⟩

theorem Dotted.firstWord (h : Dotted x) (ht : WordEnd t) : FirstWord opens (x ++ t) := by
  cases h with
  | name h => exact firstWord_of_word (isName_iff.1 h).1 ht (.inl (isName_iff.1 h).2)
  | more h =>
    rw [List.append_assoc]
    exact firstWord_of_word (isName_iff.1 h).1 (by rintro _ ⟨⟩; decide) (.inl (isName_iff.1 h).2)

theorem TypeText.head (h : TypeText f o x type) : ∃ ch y, x = ch :: y ∧ Text.isWordStart ch = true := by
  induction h with
  | basic t =>
    have hword := isWord_keyword t
    cases hx : t.keyword.toList with
    | nil => rw [hx] at hword; cases hword
    | cons ch y => exact ⟨ch, y, rfl, (isWord_cons.1 (hx ▸ hword)).1⟩
  | named h => exact h.head
  | array _ _ _ ih =>
    obtain ⟨ch, y, rfl, hch⟩ := ih
    exact ⟨ch, _, rfl, hch⟩

theorem TypeText.firstWord (h : TypeText f o x type) (ht : type.isArray = true ∨ WordEnd t) : FirstWord opens (x ++ t) := by
  have hstart : ∀ {x t : List Char} {type : TypeExpr}, TypeText f o x type → WordEnd t → FirstWord opens (x ++ t) := by
    intro x t type h
    induction h generalizing t with
    | basic b =>
      intro ht
      refine firstWord_of_word (isWord_keyword b) ht (.inr (.inr ?_))
      rw [String.ofList_toList]
      exact List.mem_map_of_mem (by cases b <;> decide)
    | named h => exact h.firstWord
    | array _ hg _ ih =>
      intro _
      simp only [List.append_assoc]
      exact ih (wordEnd_gap hg (by decide) _)
  cases h with
  | basic b => exact hstart (.basic b) (ht.resolve_left Bool.false_ne_true)
  | named h => exact hstart (.named h) (ht.resolve_left Bool.false_ne_true)
  | array h hg hg' =>
    simp only [List.append_assoc]
    exact hstart h (wordEnd_gap hg (by decide) _)

/-- A name is set off from the type before it. -/
theorem set_off {y u : List Char} (hg : Gap g) (hsep : type.isArray = true ∨ g ≠ []) :
    type.isArray = true ∨ WordEnd (g ++ (y ++ u)) := by
  refine hsep.imp_right fun hne => ?_
  cases g with
  | nil => exact absurd rfl hne
  | cons ch g => exact (tokenEnd_of_gap (t := ch :: g ++ (y ++ u)) hg.head).word

theorem BodyText.head (h : BodyText f o x s) : ∃ ch y, x = ch :: y ∧ isOpening ch = true := by
  cases h with
  | construction hx =>
    obtain ⟨ch, y, rfl, hch⟩ := hx.head
    exact ⟨ch, _, rfl, by simp [isOpening, hch]⟩
  | assignment hx =>
    obtain ⟨ch, y, rfl, hch, -⟩ := hx.head
    exact ⟨ch, _, rfl, hch⟩
  | expression hx =>
    obtain ⟨ch, y, rfl, hch, -⟩ := hx.head
    exact ⟨ch, y, rfl, hch⟩

theorem BodyText.firstWord (h : BodyText f o x s) (ht : WordEnd t) : FirstWord opens (x ++ t) := by
  have hreads : ∀ {lv k x e t}, Reads f lv k o x e → WordEnd t → FirstWord opens (x ++ t) := fun h ht =>
    (h.beginning.firstWord ht).imp fun _ => Or.imp_right .inl
  cases h with
  | construction hx hg hsep =>
    simp only [List.append_assoc]
    exact hx.firstWord (set_off hg hsep)
  | assignment hx hg _ hy =>
    cases hy
    simp only [List.append_assoc]
    exact hreads hx (wordEnd_gap hg (by decide) _)
  | expression hx => exact hreads hx ht

theorem Enclosed.head (h : Enclosed f o x e) : ∃ y, x = '(' :: y := by
  cases h
  exact ⟨_, rfl⟩

theorem Enclosed.wordEnd (h : Enclosed f o x e) (hg : Gap g) (t : List Char) : WordEnd (g ++ x ++ t) := by
  obtain ⟨y, rfl⟩ := h.head
  rw [List.append_assoc]
  exact wordEnd_gap hg (by decide) _

theorem Says.head (h : Says f o x s) : ∃ ch y, x = ch :: y ∧ (isOpening ch = true ∨ ch = '\x7b' ∨ ch = ';') := by
  cases h with
  | compound => exact ⟨_, _, rfl, .inr (.inl rfl)⟩
  | body h =>
    obtain ⟨ch, y, rfl, hch⟩ := h.head
    exact ⟨ch, _, rfl, .inl hch⟩
  | empty => exact ⟨_, _, rfl, .inr (.inr rfl)⟩
  | _ => exact ⟨_, _, rfl, .inl (by decide)⟩

theorem Says.nonempty (h : Says f o x s) : x ≠ [] := by
  obtain ⟨ch, y, rfl, -⟩ := h.head
  exact List.cons_ne_nil _ _

theorem Says.solid (h : Says f o x s) (t : List Char) : Solid (x ++ t) := by
  obtain ⟨ch, y, rfl, hch | rfl | rfl⟩ := h.head
  · exact solid_cons (isOpening_apart hch).1 (isOpening_apart hch).2.1 _
  · exact solid_cons (by decide) (by decide) _
  · exact solid_cons (by decide) (by decide) _

/-- No statement begins with `else`. -/
theorem Says.firstWord (h : Says f o x s) (t : List Char) : FirstWord (· ≠ "else") (x ++ t) := by
  have hled : ∀ {word : String} {u : List Char}, word ∈ leads → WordEnd u → FirstWord (· ≠ "else") (word.toList ++ u) := by
    intro word u hmem hu
    have hall : ∀ word ∈ leads, isWord word.toList = true ∧ word ≠ "else" := by decide
    refine firstWord_of_word (hall word hmem).1 hu ?_
    rw [String.ofList_toList]
    exact (hall word hmem).2
  cases h with
  | compound => exact firstWord_of_noWord (by rintro _ ⟨⟩; decide)
  | ifThen hg _ hx | whileLoop hg _ hx =>
    simp only [List.append_assoc]
    exact hled (by decide) (by simpa only [List.append_assoc] using hx.wordEnd hg _)
  | ifElse hg _ hx =>
    simp only [List.append_assoc]
    exact hled (by decide) (by simpa only [List.append_assoc] using hx.wordEnd hg _)
  | doWhile hg hend _ hy =>
    simp only [List.append_assoc]
    refine hled (by decide) ?_
    rw [← List.append_assoc]
    exact hend.append (fun hnil => hy.nonempty (List.append_eq_nil_iff.1 hnil).2) _
  | forLoop hg =>
    simp only [List.append_assoc]
    exact hled (by decide) (wordEnd_gap hg (by decide) _)
  | ret _ _ hend =>
    simp only [List.append_assoc] at hend ⊢
    refine hled (by decide) ?_
    have := hend.append (by simp) t
    simpa only [List.append_assoc] using this
  | breakLoop hg | continueLoop hg =>
    simp only [List.append_assoc]
    exact hled (by decide) (wordEnd_gap hg (by decide) _)
  | body h hg =>
    simp only [List.append_assoc]
    refine (h.firstWord (wordEnd_gap hg (by decide) _)).imp fun word hopens => ?_
    rintro rfl
    exact opens_apart hopens List.mem_cons_self
  | empty => exact firstWord_of_noWord (by rintro _ ⟨⟩; decide)

end

end PegFront.Cminor
