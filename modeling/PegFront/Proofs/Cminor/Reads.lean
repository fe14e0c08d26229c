import PegFront.Proofs.Cminor.Operators

/-!
# The grammar of expressions on texts

`Reads f lv k o x e` says that the text `x`, standing at the offset `o` of the file `f`, is an expression of level
`k` or tighter, and `e` is its tree, spans included. The levels are those of the binary operators, then 7 for
prefixes, 8 for suffixes and 9 for what stands alone. With `lv` the text is read as the target of an assignment,
without literals outside arguments and indices. Nothing is said of what comes before and after the text.
-/

namespace PegFront.Cminor

/-- The span of a text that begins at an offset. -/
def spanAt (f o : Nat) (x : List Char) : Span := ⟨f, o, o + Text.byteLength x⟩

/-- An argument after the first one: gaps around the comma, and where the expression begins. -/
structure Argument where
  before : List Char
  after : List Char
  start : Nat
  text : List Char
  value : Expr

namespace Argument

def comma (a : Argument) : List Char := a.before ++ [','] ++ a.after

def written (as : List Argument) : List Char := as.flatMap fun a => a.comma ++ a.text

/-- The arguments stand one after the other. -/
def Placed : Nat → List Argument → Prop
  | _, [] => True
  | o, a :: as => Gap a.before ∧ Gap a.after ∧ a.start = o + Text.byteLength a.comma ∧
      Placed (a.start + Text.byteLength a.text) as

end Argument

inductive Reads (f : Nat) : Bool → Nat → Nat → List Char → Expr → Prop
  | literal {o x l} (h : LiteralText x l) : Reads f false 9 o x (.literal l (spanAt f o x))
  | this {lv o} : Reads f lv 9 o "this".toList (.this (spanAt f o "this".toList))
  | name {lv o x} (h : isName x = true) :
      Reads f lv 9 o x (.name ⟨String.ofList x, spanAt f o x⟩ (spanAt f o x))
  | paren {lv o o' g x g' e} (hg : Gap g) (ho : o' = o + Text.byteLength (['('] ++ g)) (h : Reads f lv 0 o' x e)
      (hg' : Gap g') : Reads f lv 9 o (['('] ++ g ++ x ++ g' ++ [')']) e
  | member {lv o o' x g g' y e} (h : Reads f lv 8 o x e) (hg : Gap g) (hg' : Gap g') (hy : isName y = true)
      (ho : o' = o + Text.byteLength (x ++ g ++ ['.'] ++ g')) :
      Reads f lv 8 o (x ++ g ++ ['.'] ++ g' ++ y)
        (.member e ⟨String.ofList y, spanAt f o' y⟩ (spanAt f o (x ++ g ++ ['.'] ++ g' ++ y)))
  | call {lv o x g g' e} (h : Reads f lv 8 o x e) (hg : Gap g) (hg' : Gap g') :
      Reads f lv 8 o (x ++ g ++ ['('] ++ g' ++ [')']) (.invoke e [] (spanAt f o (x ++ g ++ ['('] ++ g' ++ [')'])))
  | invoke {lv o o' x g g' y as g'' e a} (h : Reads f lv 8 o x e) (hg : Gap g) (hg' : Gap g')
      (ho : o' = o + Text.byteLength (x ++ g ++ ['('] ++ g')) (hy : Reads f false 0 o' y a)
      (hp : Argument.Placed (o' + Text.byteLength y) as) (has : ∀ b ∈ as, Reads f false 0 b.start b.text b.value)
      (hg'' : Gap g'') :
      Reads f lv 8 o (x ++ g ++ ['('] ++ g' ++ y ++ Argument.written as ++ g'' ++ [')'])
        (.invoke e (a :: as.map (·.value))
          (spanAt f o (x ++ g ++ ['('] ++ g' ++ y ++ Argument.written as ++ g'' ++ [')'])))
  | index {lv o o' x g g' y g'' e i} (h : Reads f lv 8 o x e) (hg : Gap g) (hg' : Gap g')
      (ho : o' = o + Text.byteLength (x ++ g ++ ['['] ++ g')) (hy : Reads f false 0 o' y i) (hg'' : Gap g'') :
      Reads f lv 8 o (x ++ g ++ ['['] ++ g' ++ y ++ g'' ++ [']'])
        (.index e i (spanAt f o (x ++ g ++ ['['] ++ g' ++ y ++ g'' ++ [']'])))
  | unary {lv o o' g x e} (op : UnaryOp) (hg : Gap g) (ho : o' = o + Text.byteLength (op.symbol.toList ++ g))
      (h : Reads f lv 7 o' x e) :
      Reads f lv 7 o (op.symbol.toList ++ g ++ x) (.unary op e ⟨e.span.file, o, e.span.stop⟩)
  -- Two slashes would begin a comment.
  | binary {lv k o o' x g g' y e e'} (op : BinaryOp) (hk : op.level = k) (h : Reads f lv k o x e) (hg : Gap g)
      (hg' : Gap g') (hdiv : op = .div → g'.head? ≠ some '/')
      (ho : o' = o + Text.byteLength (x ++ g ++ op.symbol.toList ++ g')) (h' : Reads f lv (k + 1) o' y e') :
      Reads f lv k o (x ++ g ++ op.symbol.toList ++ g' ++ y) (.ofOperands op e e')
  | lift {lv k o x e} (hk : k ≤ 8) (h : Reads f lv (k + 1) o x e) : Reads f lv k o x e

/-! ## How expressions begin -/

/-- A char an expression may begin with. -/
def isOpening (ch : Char) : Bool := Text.isWordStart ch || ch.isDigit || "'\"(-+!~".toList.contains ch

theorem head_of_literalText {x : List Char} {l : Literal} (h : LiteralText x l) :
    ∃ ch y, x = ch :: y ∧ (Text.isWordStart ch = true ∨ ch.isDigit = true ∨ ch = '\'' ∨ ch = '"') := by
  cases h with
  | true | false | null => exact ⟨_, _, rfl, .inl (by decide)⟩
  | float hx =>
    obtain ⟨ch, y, rfl, hdigit⟩ := hx.head
    exact ⟨ch, y, rfl, .inr (.inl hdigit)⟩
  | hex => exact ⟨_, _, rfl, .inr (.inl (by decide))⟩
  | decimal hx =>
    obtain ⟨ch, y, rfl, hdigit⟩ := run_head hx
    exact ⟨ch, y, rfl, .inr (.inl hdigit)⟩
  | char => exact ⟨_, _, rfl, .inr (.inr (.inl rfl))⟩
  | string => exact ⟨_, _, rfl, .inr (.inr (.inr rfl))⟩

theorem head_of_isName {x : List Char} (h : isName x = true) : ∃ ch y, x = ch :: y ∧ Text.isWordStart ch = true := by
  cases x with
  | nil => cases h
  | cons ch y => exact ⟨ch, y, rfl, (isWord_cons.1 (isName_iff.1 h).1).1⟩

section
variable {f k o : Nat} {lv : Bool} {x : List Char} {e : Expr}

theorem Reads.head (h : Reads f lv k o x e) : ∃ ch y, x = ch :: y ∧ isOpening ch = true ∧
    (8 ≤ k → ch ≠ '-' ∧ ch ≠ '+' ∧ ch ≠ '!' ∧ ch ≠ '~') := by
  have start : ∀ {ch : Char}, (Text.isWordStart ch = true ∨ ch.isDigit = true ∨ ch = '\'' ∨ ch = '"') →
      isOpening ch = true ∧ ch ≠ '-' ∧ ch ≠ '+' ∧ ch ≠ '!' ∧ ch ≠ '~' := by
    intro ch h
    refine ⟨by rcases h with h | h | rfl | rfl <;> simp_all [isOpening], ?_⟩
    refine ⟨?_, ?_, ?_, ?_⟩ <;> rintro rfl <;> revert h <;> decide
  induction h with
  | literal h =>
    obtain ⟨ch, y, rfl, hch⟩ := head_of_literalText h
    exact ⟨ch, y, rfl, (start hch).1, fun _ => (start hch).2⟩
  | this => exact ⟨_, _, rfl, by decide, fun _ => by decide⟩
  | name h =>
    obtain ⟨ch, y, rfl, hch⟩ := head_of_isName h
    exact ⟨ch, y, rfl, (start (.inl hch)).1, fun _ => (start (.inl hch)).2⟩
  | paren => exact ⟨_, _, rfl, by decide, fun _ => by decide⟩
  | member _ _ _ _ _ ih | call _ _ _ ih | invoke _ _ _ _ _ _ _ _ ih | index _ _ _ _ _ _ ih =>
    obtain ⟨ch, y, rfl, hch⟩ := ih
    exact ⟨ch, _, rfl, hch⟩
  | unary op =>
    cases op <;> exact ⟨_, _, rfl, by decide, fun hk => absurd hk (by decide)⟩
  | binary op hk _ _ _ _ _ _ ih =>
    obtain ⟨ch, y, rfl, hch, -⟩ := ih
    exact ⟨ch, _, rfl, hch, fun h8 => absurd op.level_lt (by omega)⟩
  | lift hk _ ih =>
    obtain ⟨ch, y, rfl, hch, h8⟩ := ih
    exact ⟨ch, y, rfl, hch, fun hk' => h8 (by omega)⟩

theorem isOpening_apart {ch : Char} (h : isOpening ch = true) :
    Text.isBlank ch = false ∧ ch ≠ '/' ∧ ch ≠ '=' ∧ ch ≠ '<' ∧ ch ≠ '>' ∧ ch ≠ ')' ∧ ch ≠ ']' := by
  constructor
  · rw [Bool.eq_false_iff]
    intro hb
    have hword := isWordChar_of_blank hb
    simp only [isOpening, Bool.or_eq_true] at h
    rcases h with (h | h) | h
    · rw [isWordChar_of_start h] at hword
      cases hword
    · rw [isWordChar_of_digit h] at hword
      cases hword
    · have hall : "'\"(-+!~".toList.all (fun ch => !Text.isBlank ch) := by decide
      have hno := List.all_eq_true.1 hall ch (List.contains_iff_mem.1 h)
      rw [hb] at hno
      cases hno
  · refine ⟨?_, ?_, ?_, ?_, ?_, ?_⟩ <;> rintro rfl <;> revert h <;> decide

theorem Reads.solid (h : Reads f lv k o x e) (t : List Char) : Solid (x ++ t) := by
  obtain ⟨ch, y, rfl, hch, -⟩ := h.head
  exact solid_cons (isOpening_apart hch).1 (isOpening_apart hch).2.1 _

/-- What follows a binary operator makes it no longer. -/
theorem Reads.alone {g : List Char} (hg : Gap g) (h : Reads f lv k o x e) (t : List Char) :
    ∀ ch ∈ (g ++ x ++ t).head?, ch ≠ '=' ∧ ch ≠ '<' ∧ ch ≠ '>' := by
  intro ch hch
  cases g with
  | nil =>
    obtain ⟨ch', y, rfl, hopen, -⟩ := h.head
    cases hch
    obtain ⟨-, -, h₁, h₂, h₃, -⟩ := isOpening_apart hopen
    exact ⟨h₁, h₂, h₃⟩
  | cons ch' g =>
    cases hch
    rcases hg.head ch rfl with hb | rfl
    · refine ⟨?_, ?_, ?_⟩ <;> rintro rfl <;> revert hb <;> decide
    · decide

/-- What follows a slash that divides begins no comment with it. -/
theorem Reads.after_slash {g : List Char} (hg : Gap g) (hg' : g.head? ≠ some '/') (h : Reads f lv k o x e)
    (t : List Char) : ∀ ch ∈ (g ++ x ++ t).head?, ch ≠ '/' ∧ ch ≠ '*' := by
  intro ch hch
  cases g with
  | nil =>
    obtain ⟨ch', y, rfl, hopen, -⟩ := h.head
    cases hch
    exact ⟨(isOpening_apart hopen).2.1, by rintro rfl; revert hopen; decide⟩
  | cons ch' g =>
    cases hch
    refine ⟨fun hslash => hg' (by rw [hslash]; rfl), ?_⟩
    rcases hg.head ch rfl with hb | rfl
    · rintro rfl
      revert hb
      decide
    · decide

theorem Reads.solid_operator {g : List Char} {op : BinaryOp} (hg : Gap g) (hdiv : op = .div → g.head? ≠ some '/')
    (h : Reads f lv k o x e) (t : List Char) : Solid (op.symbol.toList ++ (g ++ x ++ t)) := by
  by_cases hop : op = .div
  · subst hop
    exact solid_slash (h.after_slash hg (hdiv rfl) t)
  · cases op with
    | div => exact absurd rfl hop
    | _ => exact solid_cons (by decide) (by decide) _

/-! ## Other levels and modes -/

theorem Reads.level_le (h : Reads f lv k o x e) : k ≤ 9 := by
  induction h with
  | binary op hk => exact hk ▸ Nat.le_trans (Nat.le_of_lt op.level_lt) (by decide)
  | lift hk => exact Nat.le_succ_of_le hk
  | _ => decide

/-- An expression is one of every looser level. -/
theorem Reads.loosen {k' : Nat} (h : Reads f lv k o x e) (hk : k' ≤ k) : Reads f lv k' o x e := by
  obtain ⟨j, rfl⟩ := Nat.exists_eq_add_of_le hk
  induction j with
  | zero => exact h
  | succ j ih =>
    have := h.level_le
    exact ih (.lift (by omega) h) (Nat.le_add_right _ _)

/-- What is read as an assignment target is read as any other expression as well. -/
theorem Reads.rvalue (h : Reads f lv k o x e) : Reads f false k o x e := by
  induction h with
  | literal h => exact .literal h
  | this => exact .this
  | name h => exact .name h
  | paren hg ho _ hg' ih => exact .paren hg ho ih hg'
  | member _ hg hg' hy ho ih => exact .member ih hg hg' hy ho
  | call _ hg hg' ih => exact .call ih hg hg'
  | invoke _ hg hg' ho hy hp has hg'' ih => exact .invoke ih hg hg' ho hy hp has hg''
  | index _ hg hg' ho hy hg'' ih => exact .index ih hg hg' ho hy hg''
  | unary op hg ho _ ih => exact .unary op hg ho ih
  | binary op hk _ hg hg' hdiv ho _ ih ih' => exact .binary op hk ih hg hg' hdiv ho ih'
  | lift hk _ ih => exact .lift hk ih

end

end PegFront.Cminor
