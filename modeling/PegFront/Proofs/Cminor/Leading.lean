import PegFront.Proofs.Cminor.Types

/-!
# How expressions begin

Where an expression stands as a statement, the text is first tried as a declaration and as an assignment. A
declaration would begin with the dotted name the expression begins with (`Reads.beginning`), and an assignment with
its first operand (`Reads.leading`). What comes after these is never what a declaration or an assignment goes on
with. Only inside parentheses the attempt can fail for good, on a literal after an operator (`Expr.attempt`).
-/

namespace PegFront.Cminor

/-! ## First words -/

/-- The word the text begins with, if there is one, has a property. -/
def FirstWord (P : String → Prop) (t : List Char) : Prop :=
  ∀ x u, isWord x = true → t = x ++ u → WordEnd u → P (String.ofList x)

section
variable {P Q : String → Prop} {c d : Cursor} {t u x : List Char}

theorem firstWord_of_noWord (h : NoWord t) : FirstWord P t := by
  rintro x u hx rfl -
  cases x with
  | nil => cases hx
  | cons ch x =>
    have := h ch rfl
    rw [(isWord_cons.1 hx).1] at this
    cases this

theorem firstWord_of_word (hx : isWord x = true) (hu : WordEnd u) (h : P (String.ofList x)) :
    FirstWord P (x ++ u) := by
  intro y v hy heq hv
  obtain ⟨rfl, -⟩ := run_unique (all_of_isWord hx) (all_of_isWord hy) hu hv heq
  exact h

theorem FirstWord.imp (h : FirstWord P t) (hPQ : ∀ s, P s → Q s) : FirstWord Q t :=
  fun x u hx ht hu => hPQ _ (h x u hx ht hu)

/-- Words without the property are not there. -/
theorem FirstWord.notAt {words : List String} (h : FirstWord P c.rest)
    (hwords : ∀ word ∈ words, isWord word.toList = true ∧ ¬ P word) : NotAt words c := by
  intro word hmem d hd hend
  have := h _ _ (hwords word hmem).1 hd.rest hend
  rw [String.ofList_toList] at this
  exact (hwords word hmem).2 this

end

/-! ## The dotted name at the beginning -/

/-- The keywords that are expressions. -/
def standing : List String := ["this", "true", "false", "null"]

/-- What a text begins with, taken for a type. -/
inductive Beginning (x : List Char) : Prop
  /-- The text is a dotted name and nothing else. -/
  | dotted (h : Dotted x)
  /-- After the dotted name comes something that no declaration goes on with. -/
  | broken {z u : List Char} (hx : x = z ++ u) (hz : Dotted z) (hu : ∀ t, Breaks (u ++ t))
  | nameless (h : ∀ t, WordEnd t → FirstWord (· ∈ standing) (x ++ t))

section
variable {f k o : Nat} {lv : Bool} {g r s t u x y z : List Char} {e : Expr} {l : Literal}

theorem breaks_gap (hg : Gap g) (hsolid : Solid r) (hword : WordEnd r) (hdot : g = [] → ∀ u, r = '.' :: u → NoWord u)
    (hopen : ∀ u, r = '[' :: u → ∃ r', afterGap u = some r' ∧ r'.head? ≠ some ']') : Breaks (g ++ r) := by
  cases g with
  | nil => exact ⟨hword, hdot rfl, r, hsolid, hword.noWord, hopen⟩
  | cons ch g =>
    refine ⟨(tokenEnd_of_gap (t := ch :: g ++ r) hg.head).word, ?_, r, hg r hsolid, hword.noWord, hopen⟩
    rintro u ⟨⟩
    exact absurd (hg.head '.' rfl) (by decide)

/-- Before a char that begins neither a member nor a pair of brackets. -/
theorem breaks_char {ch : Char} (hg : Gap g) (hsolid : Solid (ch :: u)) (hword : Text.isWordChar ch = false)
    (hch : ch ≠ '.' ∧ ch ≠ '[') : Breaks (g ++ ch :: u) := by
  refine breaks_gap hg hsolid (by rintro _ ⟨⟩; exact hword) ?_ ?_
  · rintro - u ⟨⟩
    exact absurd rfl hch.1
  · rintro u ⟨⟩
    exact absurd rfl hch.2

theorem Beginning.append (h : Beginning x) (hs : ∀ t, Breaks (s ++ t)) : Beginning (x ++ s) := by
  cases h with
  | dotted h => exact .broken rfl h hs
  | broken hx hz hu =>
    subst hx
    refine .broken (List.append_assoc _ _ _) hz fun t => ?_
    rw [List.append_assoc]
    exact hu _
  | nameless h =>
    refine .nameless fun t _ => ?_
    rw [List.append_assoc]
    exact h _ (hs t).word

theorem beginning_of_head {ch : Char} (h : Text.isWordStart ch = false) : Beginning (ch :: y) :=
  .nameless fun _ _ => firstWord_of_noWord (by rintro _ ⟨⟩; exact h)

theorem beginning_of_standing (h : String.ofList x ∈ standing) : Beginning x := by
  have hword : ∀ s ∈ standing, isWord s.toList = true := by decide
  refine .nameless fun t ht => firstWord_of_word ?_ ht h
  simpa using hword _ h

theorem firstWord_literal (h : LiteralText x l) (ht : WordEnd t) :
    FirstWord (· ∈ ["true", "false", "null"]) (x ++ t) := by
  have hstart : ∀ {ch : Char} {y : List Char}, Text.isWordStart ch = false → NoWord (ch :: y ++ t) := by
    rintro ch y h _ ⟨⟩
    exact h
  cases h with
  | true | false | null => exact firstWord_of_word (by decide) ht (by decide)
  | float hx =>
    obtain ⟨ch, y, rfl, hch⟩ := hx.head
    exact firstWord_of_noWord (hstart (isWordStart_of_digit hch))
  | hex => exact firstWord_of_noWord (hstart (by decide))
  | decimal hx =>
    obtain ⟨ch, y, rfl, hch⟩ := run_head hx
    exact firstWord_of_noWord (hstart (isWordStart_of_digit hch))
  | char | string => exact firstWord_of_noWord (hstart (by decide))

/-- A member goes on with the dotted name, if there is no gap around the dot, and breaks it else. -/
theorem beginning_member {g' : List Char} (h : Beginning x) (hg : Gap g) (hg' : Gap g') (hy : isName y = true) :
    Beginning (x ++ g ++ ['.'] ++ g' ++ y) := by
  have happend : x ++ g ++ ['.'] ++ g' ++ y = x ++ (g ++ '.' :: (g' ++ y)) := by simp
  rw [happend]
  have hword : ∀ t, WordEnd (g ++ '.' :: (g' ++ y) ++ t) := by
    intro t
    rw [List.append_assoc]
    exact (hg.tokenEnd (u := '.' :: (g' ++ y ++ t)) (ends_dot (g := []) .nil (u := g' ++ y ++ t) (by
      rw [List.append_assoc]
      exact not_digit_of_name hg' hy t)).token).word
  by_cases htight : g = [] ∧ g' = []
  · obtain ⟨rfl, rfl⟩ := htight
    cases h with
    | dotted h => exact .dotted (h.snoc hy)
    | broken hx hz hu =>
      subst hx
      refine .broken (List.append_assoc _ _ _) hz fun t => ?_
      rw [List.append_assoc]
      exact hu _
    | nameless h =>
      refine .nameless fun t _ => ?_
      rw [List.append_assoc]
      exact h _ (hword t)
  · refine h.append fun t => ?_
    rw [List.append_assoc]
    refine breaks_gap hg (solid_cons (by decide) (by decide) _) (by rintro _ ⟨⟩; decide) ?_ nofun
    rintro rfl u ⟨⟩
    obtain ⟨ch, g', rfl⟩ := List.exists_cons_of_ne_nil fun h => htight ⟨rfl, h⟩
    exact (tokenEnd_of_gap (t := ch :: g' ++ y ++ t) hg'.head).word.noWord

theorem Reads.beginning (h : Reads f lv k o x e) : Beginning x := by
  induction h with
  | literal h => exact .nameless fun t ht => (firstWord_literal h ht).imp fun s hs => List.mem_cons_of_mem _ hs
  | this => exact beginning_of_standing (by decide)
  | name h => exact .dotted (.name h)
  | paren => exact beginning_of_head (by decide)
  | member _ hg hg' hy _ ih => exact beginning_member ih hg hg' hy
  | call _ hg _ ih =>
    simp only [List.append_assoc]
    refine ih.append fun t => ?_
    rw [List.append_assoc]
    exact breaks_char hg (solid_cons (by decide) (by decide) _) (by decide) (by decide)
  | invoke _ hg _ _ _ _ _ _ ih =>
    simp only [List.append_assoc]
    refine ih.append fun t => ?_
    rw [List.append_assoc]
    exact breaks_char hg (solid_cons (by decide) (by decide) _) (by decide) (by decide)
  | index _ hg hg' _ hy _ ih =>
    simp only [List.append_assoc]
    refine ih.append fun t => ?_
    simp only [List.append_assoc, List.cons_append, List.nil_append]
    refine breaks_gap hg (solid_cons (by decide) (by decide) _) (by rintro _ ⟨⟩; decide) nofun ?_
    rintro u ⟨⟩
    refine ⟨_, hg' _ (hy.solid _), ?_⟩
    obtain ⟨ch, z, rfl, hch, -⟩ := hy.head
    rintro ⟨⟩
    exact (isOpening_apart hch).2.2.2.2.2.2 rfl
  | unary op => cases op <;> exact beginning_of_head (by decide)
  | binary op _ _ hg hg' hdiv _ h' ih =>
    simp only [List.append_assoc]
    refine ih.append fun t => ?_
    have hsolid := h'.solid_operator hg' hdiv t
    simp only [List.append_assoc] at hsolid ⊢
    refine breaks_gap hg hsolid ?_ ?_ ?_ <;> cases op <;> first | (rintro _ ⟨⟩; decide) | nofun
  | lift _ _ ih => exact ih

/-! ## The first operand -/

/-- Here an operand with its suffixes ends, and no assignment begins. -/
structure Settles (t : List Char) : Prop where
  ends : Ends 8 t
  unassigned : ∀ u, afterGap t = some ('=' :: u) → u.head? = some '='

theorem settles_operator {op : BinaryOp} (hg : Gap g) (hu : ∀ ch ∈ u.head?, ch ≠ '=' ∧ ch ≠ '<' ∧ ch ≠ '>')
    (hs : Solid (op.symbol.toList ++ u)) : Settles (g ++ (op.symbol.toList ++ u)) where
  ends := (ends_operator hg hu hs).mono (by have := op.level_lt; omega)
  unassigned := by
    intro v hv
    rw [hg _ hs] at hv
    cases op with
    | equal => cases hv; rfl
    | _ => cases hv

theorem settles_closing {ch : Char} (hg : Gap g) (hch : ch = ')' ∨ ch = ']' ∨ ch = ',' ∨ ch = ';') :
    Settles (g ++ ch :: u) where
  ends := ends_closing hg hch
  unassigned := by
    intro v hv
    rcases hch with rfl | rfl | rfl | rfl <;>
      rw [hg _ (solid_cons (by decide) (by decide) _)] at hv <;> cases hv

/-- An expression begins with a sign or with an operand that has all the suffixes that follow it. -/
theorem Reads.leading (h : Reads f lv k o x e) :
    (∃ ch y, x = ch :: y ∧ (ch = '-' ∨ ch = '+' ∨ ch = '!' ∨ ch = '~')) ∨
    ∃ z u e', x = z ++ u ∧ Reads f lv 8 o z e' ∧ (u = [] ∨ ∀ t, Settles (u ++ t)) := by
  induction h with
  | literal h => exact .inr ⟨_, [], _, (List.append_nil _).symm, .lift (by decide) (.literal h), .inl rfl⟩
  | this => exact .inr ⟨_, [], _, (List.append_nil _).symm, .lift (by decide) .this, .inl rfl⟩
  | name h => exact .inr ⟨_, [], _, (List.append_nil _).symm, .lift (by decide) (.name h), .inl rfl⟩
  | paren hg ho h hg' =>
    exact .inr ⟨_, [], _, (List.append_nil _).symm, .lift (by decide) (.paren hg ho h hg'), .inl rfl⟩
  | member h hg hg' hy ho => exact .inr ⟨_, [], _, (List.append_nil _).symm, .member h hg hg' hy ho, .inl rfl⟩
  | call h hg hg' => exact .inr ⟨_, [], _, (List.append_nil _).symm, .call h hg hg', .inl rfl⟩
  | invoke h hg hg' ho hy hp has hg'' =>
    exact .inr ⟨_, [], _, (List.append_nil _).symm, .invoke h hg hg' ho hy hp has hg'', .inl rfl⟩
  | index h hg hg' ho hy hg'' =>
    exact .inr ⟨_, [], _, (List.append_nil _).symm, .index h hg hg' ho hy hg'', .inl rfl⟩
  | unary op => cases op <;> exact .inl ⟨_, _, rfl, by decide⟩
  | binary op hk _ hg hg' hdiv _ h' ih =>
    rename_i x g g' y _ _ _ _ _
    obtain ⟨ch, y, rfl, hch⟩ | ⟨z, u, e', rfl, hz, hu⟩ := ih
    · exact .inl ⟨ch, _, rfl, hch⟩
    · refine .inr ⟨z, u ++ (g ++ (op.symbol.toList ++ (g' ++ y))), e', by simp, hz, .inr fun t => ?_⟩
      rcases hu with rfl | hu
      · have hsettles : Settles (g ++ (op.symbol.toList ++ (g' ++ y ++ t))) :=
          settles_operator hg (h'.alone hg' t) (h'.solid_operator hg' hdiv t)
        simpa using hsettles
      · rw [List.append_assoc]
        exact hu _
  | lift _ _ ih => exact ih

/-! ## Expressions as targets -/

/-- What becomes of an expression that is read as the target of an assignment. -/
inductive Attempt where
  | taken
  | missed
  /-- The parse fails: an operand is missing after an operator. -/
  | stopped
deriving DecidableEq, Repr

def Expr.attempt : Expr → Attempt
  | .literal .. => .missed
  | .name .. | .this _ => .taken
  | .member e _ _ | .invoke e _ _ | .index e _ _ => e.attempt
  | .unary _ e _ => if e.attempt = .taken then .taken else .stopped
  | .binary _ e e' _ => if e.attempt = .taken then if e'.attempt = .taken then .taken else .stopped else e.attempt

theorem Reads.target (h : Reads f lv k o x e) (he : e.attempt = .taken) : Reads f true k o x e := by
  induction h with
  | literal => cases he
  | this => exact .this
  | name h => exact .name h
  | paren hg ho _ hg' ih => exact .paren hg ho (ih he) hg'
  | member _ hg hg' hy ho ih => exact .member (ih he) hg hg' hy ho
  | call _ hg hg' ih => exact .call (ih he) hg hg'
  | invoke _ hg hg' ho hy hp has hg'' ih => exact .invoke (ih he) hg hg' ho hy hp has hg''
  | index _ hg hg' ho hy hg'' ih => exact .index (ih he) hg hg' ho hy hg''
  | unary op hg ho _ ih =>
    rw [Expr.attempt] at he
    split at he
    · next h => exact .unary op hg ho (ih h)
    · cases he
  | binary op hk _ hg hg' hdiv ho _ ih ih' =>
    rw [Expr.ofOperands, Expr.attempt] at he
    split at he
    · next hl =>
      split at he
      · next hr => exact .binary op hk (ih hl) hg hg' hdiv ho (ih' hr)
      · cases he
    · next hl => exact absurd he hl
  | lift hk _ ih => exact .lift hk (ih he)

/-- Without parentheses around it, an operand is a target or begins with a literal. -/
theorem Reads.attempt_of_head (h : Reads f lv k o x e) (hk : 8 ≤ k) (hx : x.head? ≠ some '(') : e.attempt ≠ .stopped := by
  have hhead : ∀ {y z : List Char}, y ≠ [] → (y ++ z).head? ≠ some '(' → y.head? ≠ some '(' := by
    intro y z hy h
    rwa [List.head?_append_of_ne_nil _ hy] at h
  induction h with
  | literal | this | name => exact nofun
  | paren => exact absurd rfl hx
  | member h _ _ _ _ ih | call h _ _ ih | invoke h _ _ _ _ _ _ _ ih | index h _ _ _ _ _ ih =>
    simp only [List.append_assoc] at hx
    exact ih (by decide) (hhead h.nonempty hx)
  | unary => exact absurd hk (by decide)
  | binary op hop => exact absurd op.level_lt (by omega)
  | lift _ _ ih => exact ih (by omega) hx

end

end PegFront.Cminor
