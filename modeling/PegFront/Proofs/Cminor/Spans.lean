import PegFront.Proofs.Cminor.Nesting
import PegFront.Proofs.Cminor.Trees

/-!
# Spans of expressions

The span of a node begins and ends with the text of its outermost operands, without the parentheses these are written
in. So it covers the text the node was read from up to parentheses at its ends (`Cut`), and all of it as long as the
parentheses in the span itself are balanced.
-/

namespace PegFront.Cminor

namespace Expr

mutual

/-- The nodes of a tree, the root included. -/
def nodes : Expr → List Expr
  | .literal l s => [.literal l s]
  | .name id s => [.name id s]
  | .this s => [.this s]
  | .unary op operand s => .unary op operand s :: nodes operand
  | .binary op left right s => .binary op left right s :: (nodes left ++ nodes right)
  | .member target id s => .member target id s :: nodes target
  | .invoke target arguments s => .invoke target arguments s :: (nodes target ++ nodesAll arguments)
  | .index target i s => .index target i s :: (nodes target ++ nodes i)

def nodesAll : List Expr → List Expr
  | [] => []
  | e :: es => nodes e ++ nodesAll es

end

theorem mem_nodesAll {n : Expr} {es : List Expr} : n ∈ nodesAll es ↔ ∃ e ∈ es, n ∈ e.nodes := by
  induction es with
  | nil => simp [nodesAll]
  | cons e es ih => simp [nodesAll, ih]

end Expr

/-! ## Cutting off parentheses -/

/-- Opening parentheses, each with a gap behind it. -/
inductive Opening : Nat → List Char → Prop
  | nil : Opening 0 []
  | paren {j g p} (hg : Gap g) (h : Opening j p) : Opening (j + 1) (['('] ++ g ++ p)

/-- Closing parentheses, each with a gap before it. -/
inductive Closing : Nat → List Char → Prop
  | nil : Closing 0 []
  | paren {j q g} (h : Closing j q) (hg : Gap g) : Closing (j + 1) (q ++ g ++ [')'])

section
variable {f k o o' n j j' : Nat} {lv : Bool} {x p t q : List Char} {e : Expr}

theorem Opening.nest (h : Opening j p) (n : Nat) : nest (.code, n) p = some (.code, n + j) := by
  induction h generalizing n with
  | nil => rfl
  | @paren j g p hg _ ih =>
    rw [show n + (j + 1) = n + 1 + j by omega]
    exact nest_join (nest_join rfl (nest_gap hg)) (ih (n + 1))

theorem Closing.nest (h : Closing j q) (n : Nat) : nest (.code, n + j) q = some (.code, n) := by
  induction h generalizing n with
  | nil => rfl
  | @paren j q g _ hg ih =>
    rw [show n + (j + 1) = n + 1 + j by omega]
    exact nest_join (nest_join (ih (n + 1)) (nest_gap hg)) rfl

theorem Opening.eq_nil (h : Opening 0 p) : p = [] := by cases h; rfl

theorem Closing.eq_nil (h : Closing 0 q) : q = [] := by cases h; rfl

/-- The text of an expression, cut into what its span covers and the parentheses around. -/
structure Cut (f o : Nat) (x : List Char) (e : Expr) (p t q : List Char) (j j' : Nat) : Prop where
  text : x = p ++ t ++ q
  nonempty : t ≠ []
  span : e.span = spanAt f (o + Text.byteLength p) t
  opening : Opening j p
  closing : Closing j' q
  nest : ∀ n, nest (.code, n + j) t = some (.code, n + j')

/-- A text of the grammar ends as deep as it begins. -/
theorem Cut.nest_text (h : Cut f o x e p t q j j') (n : Nat) : Cminor.nest (.code, n) x = some (.code, n) := by
  rw [h.text, List.append_assoc, nest_append_of (h.opening.nest n), nest_append_of (h.nest n)]
  exact h.closing.nest n

/-- Nothing is cut off. -/
theorem Cut.whole (h : Reads f lv k o x e) (hs : e.span = spanAt f o x)
    (hn : ∀ n, Cminor.nest (.code, n) x = some (.code, n)) : Cut f o x e [] x [] 0 0 :=
  ⟨by simp, h.nonempty, hs, .nil, .nil, hn⟩

theorem nest_arguments {as : List Argument} (hp : Argument.Placed o as)
    (has : ∀ b ∈ as, nest (.code, n) b.text = some (.code, n)) :
    nest (.code, n) (Argument.written as) = some (.code, n) := by
  induction as generalizing o with
  | nil => rfl
  | cons b as ih =>
    show Cminor.nest _ (b.before ++ [','] ++ b.after ++ b.text ++ Argument.written as) = _
    rw [List.append_assoc, List.append_assoc, List.append_assoc, nest_append_of (nest_gap hp.1),
      nest_append_of (nest_flat (by decide)), nest_append_of (nest_gap hp.2.1),
      nest_append_of (has b List.mem_cons_self)]
    exact ih hp.2.2.2 fun b' hb' => has b' (List.mem_cons_of_mem _ hb')

theorem Cut.unary (h : Cut f o' x e p t q j j') (op : UnaryOp) {g : List Char} (hg : Gap g)
    (ho : o' = o + Text.byteLength (op.symbol.toList ++ g)) :
    Cut f o (op.symbol.toList ++ g ++ x) (.unary op e ⟨e.span.file, o, e.span.stop⟩) [] (op.symbol.toList ++ g ++ p ++ t) q
      0 j' where
  text := by
    rw [h.text]
    simp only [List.append_assoc, List.nil_append]
  nonempty := fun hnil => h.nonempty (List.append_eq_nil_iff.1 hnil).2
  span := by
    have hnil : Text.byteLength [] = 0 := rfl
    rw [h.span, ho]
    simp only [Expr.span, spanAt, Text.byteLength_append, hnil]
    congr 1
    omega
  opening := .nil
  closing := h.closing
  nest := fun n => by
    have hop : Cminor.nest (.code, n) op.symbol.toList = some (.code, n) := by cases op <;> exact nest_flat (by decide)
    exact nest_join (nest_join (nest_join hop (nest_gap hg)) (h.opening.nest n)) (h.nest n)

/-- Between the operands of an operator nothing opens or closes. -/
theorem nest_between {g g' z : List Char} {op : BinaryOp} {s : NestMode × Nat} (hg : Gap g) (hg' : Gap g')
    (hdiv : op = .div → ∀ ch ∈ (g' ++ z).head?, ch ≠ '/' ∧ ch ≠ '*') (hz : z ≠ []) (h : nest (.code, n) z = some s) :
    nest (.code, n) (g ++ op.symbol.toList ++ g' ++ z) = some s := by
  by_cases hop : op = .div
  · subst hop
    have hslash : nest (.slash, n) (g' ++ z) = some s := by
      rw [nest_slash (hdiv rfl) fun hnil => hz (List.append_eq_nil_iff.1 hnil).2]
      exact nest_join (nest_gap hg') h
    rw [List.append_assoc]
    exact nest_join (nest_join (nest_gap hg) rfl) hslash
  · exact nest_join (nest_join (nest_join (nest_gap hg) (nest_operator hop)) (nest_gap hg')) h

theorem Cut.binary {i i' : Nat} {y p' t' q' g g' : List Char} {e' : Expr} (h : Cut f o x e p t q j j') (op : BinaryOp)
    (hg : Gap g) (hg' : Gap g') (hdiv : op = .div → g'.head? ≠ some '/')
    (ho : o' = o + Text.byteLength (x ++ g ++ op.symbol.toList ++ g')) (hy : Reads f lv k o' y e')
    (h' : Cut f o' y e' p' t' q' i i') :
    Cut f o (x ++ g ++ op.symbol.toList ++ g' ++ y) (.ofOperands op e e') p
      (t ++ q ++ (g ++ op.symbol.toList ++ g' ++ (p' ++ t'))) q' j i' where
  text := by
    rw [h.text, h'.text]
    simp only [List.append_assoc]
  nonempty := fun hnil => h.nonempty (List.append_eq_nil_iff.1 (List.append_eq_nil_iff.1 hnil).1).1
  span := by
    rw [Expr.ofOperands, Expr.span, h.span, h'.span, ho, h.text]
    simp only [Span.merge, spanAt, Text.byteLength_append]
    congr 1 <;> omega
  opening := h.opening
  closing := h'.closing
  nest := fun n => by
    have hz : p' ++ t' ≠ [] := fun hnil => h'.nonempty (List.append_eq_nil_iff.1 hnil).2
    refine nest_join (nest_join (h.nest n) (h.closing.nest n)) (nest_between hg hg' (fun hop => ?_) hz
      (nest_join (h'.opening.nest n) (h'.nest n)))
    have := hy.after_slash hg' (hdiv hop) []
    rwa [h'.text, List.append_nil, ← List.append_assoc, List.head?_append_of_ne_nil _ (by simp [hz])] at this

theorem Reads.cut (h : Reads f lv k o x e) : ∃ p t q j j', Cut f o x e p t q j j' := by
  have hself := h
  induction h with
  | literal h => exact ⟨_, _, _, _, _, .whole hself rfl fun _ => nest_literal h⟩
  | this => exact ⟨_, _, _, _, _, .whole hself rfl fun _ => nest_word (by decide)⟩
  | name h => exact ⟨_, _, _, _, _, .whole hself rfl fun _ => nest_word (isName_iff.1 h).1⟩
  | paren hg ho h hg' ih =>
    obtain ⟨p, t, q, j, j', hcut⟩ := ih h
    refine ⟨_, t, _, j + 1, j' + 1, ?_, hcut.nonempty, ?_, .paren hg hcut.opening, .paren hcut.closing hg', fun n => ?_⟩
    · rw [hcut.text]
      simp only [List.append_assoc]
    · rw [hcut.span, ho]
      simp only [Text.byteLength_append, Nat.add_assoc]
    · have := hcut.nest (n + 1)
      rwa [show n + 1 + j = n + (j + 1) by omega, show n + 1 + j' = n + (j' + 1) by omega] at this
  | member h hg hg' hy _ ih =>
    obtain ⟨_, _, _, _, _, hcut⟩ := ih h
    exact ⟨_, _, _, _, _, .whole hself rfl fun n => nest_join (nest_join (nest_join (nest_join (hcut.nest_text n)
      (nest_gap hg)) (nest_flat (by decide))) (nest_gap hg')) (nest_word (isName_iff.1 hy).1)⟩
  | call h hg hg' ih =>
    obtain ⟨_, _, _, _, _, hcut⟩ := ih h
    exact ⟨_, _, _, _, _, .whole hself rfl fun n => nest_join (nest_join (nest_join (nest_join (hcut.nest_text n)
      (nest_gap hg)) rfl) (nest_gap hg')) rfl⟩
  | invoke h hg hg' _ hy hp has hg'' ih ihy ihas =>
    obtain ⟨_, _, _, _, _, hcut⟩ := ih h
    obtain ⟨_, _, _, _, _, hcut'⟩ := ihy hy
    refine ⟨_, _, _, _, _, .whole hself rfl fun n => nest_join (nest_join (nest_join (nest_join (nest_join (nest_join
      (nest_join (hcut.nest_text n) (nest_gap hg)) rfl) (nest_gap hg')) (hcut'.nest_text (n + 1)))
      (nest_arguments hp fun b hb => ?_)) (nest_gap hg'')) rfl⟩
    obtain ⟨_, _, _, _, _, hcut''⟩ := ihas b hb (has b hb)
    exact hcut''.nest_text (n + 1)
  | index h hg hg' _ hy hg'' ih ihy =>
    obtain ⟨_, _, _, _, _, hcut⟩ := ih h
    obtain ⟨_, _, _, _, _, hcut'⟩ := ihy hy
    exact ⟨_, _, _, _, _, .whole hself rfl fun n => nest_join (nest_join (nest_join (nest_join (nest_join (nest_join
      (hcut.nest_text n) (nest_gap hg)) (nest_flat (by decide))) (nest_gap hg')) (hcut'.nest_text n)) (nest_gap hg''))
      (nest_flat (by decide))⟩
  | unary op hg ho h ih =>
    obtain ⟨p, t, q, j, j', hcut⟩ := ih h
    exact ⟨_, _, _, _, _, hcut.unary op hg ho⟩
  | binary op _ h hg hg' hdiv ho h' ih ih' =>
    obtain ⟨p, t, q, j, j', hcut⟩ := ih h
    obtain ⟨p', t', q', i, i', hcut'⟩ := ih' h'
    exact ⟨_, _, _, _, _, hcut.binary op hg hg' hdiv ho h' hcut'⟩
  | lift _ h ih => exact ih h

theorem Reads.nest (h : Reads f lv k o x e) (n : Nat) : Cminor.nest (.code, n) x = some (.code, n) := by
  obtain ⟨_, _, _, _, _, hcut⟩ := h.cut
  exact hcut.nest_text n

/-! ## Nodes in the text -/

/-- The span covers the text but for parentheses, and all of it if it is balanced. -/
def Covered (f o : Nat) (x : List Char) (e : Expr) : Prop :=
  ∃ p t q j j', Cut f o x e p t q j j' ∧ (Balanced t → p = [] ∧ q = [])

theorem Reads.covered_whole (h : Reads f lv k o x e) (hs : e.span = spanAt f o x) : Covered f o x e :=
  ⟨_, _, _, _, _, .whole h hs h.nest, fun _ => ⟨rfl, rfl⟩⟩

theorem Cut.balanced (h : Cut f o x e [] t q 0 j') (hb : Balanced t) : q = [] := by
  have hnest := h.nest 0
  rw [Nat.zero_add, Nat.zero_add, hb] at hnest
  cases hnest
  exact h.closing.eq_nil

theorem Reads.covered_unary (h : Reads f lv k o' x e) (op : UnaryOp) {g : List Char} (hg : Gap g)
    (ho : o' = o + Text.byteLength (op.symbol.toList ++ g)) :
    Covered f o (op.symbol.toList ++ g ++ x) (.unary op e ⟨e.span.file, o, e.span.stop⟩) := by
  obtain ⟨p, t, q, j, j', hcut⟩ := h.cut
  have hunary := hcut.unary op hg ho
  exact ⟨_, _, _, _, _, hunary, fun hb => ⟨rfl, hunary.balanced hb⟩⟩

theorem Reads.covered_binary {k' : Nat} {y g g' : List Char} {e' : Expr} (h : Reads f lv k o x e) (op : BinaryOp) (hg : Gap g)
    (hg' : Gap g') (hdiv : op = .div → g'.head? ≠ some '/')
    (ho : o' = o + Text.byteLength (x ++ g ++ op.symbol.toList ++ g')) (h' : Reads f lv k' o' y e') :
    Covered f o (x ++ g ++ op.symbol.toList ++ g' ++ y) (.ofOperands op e e') := by
  obtain ⟨p, t, q, j, j', hcut⟩ := h.cut
  obtain ⟨p', t', q', i, i', hcut'⟩ := h'.cut
  have hbinary := hcut.binary op hg hg' hdiv ho h' hcut'
  refine ⟨_, _, _, _, _, hbinary, fun hb => ?_⟩
  -- If the left operand were in parentheses, the first of them would be closed before any is open.
  obtain rfl : j = 0 := by
    rw [Balanced, nest_append, Option.bind_eq_some_iff] at hb
    obtain ⟨⟨m, n⟩, hleft, -⟩ := hb
    have hdeep := nest_add hleft j
    rw [nest_join (hcut.nest 0) (hcut.closing.nest 0)] at hdeep
    simp only [Option.some.injEq, Prod.mk.injEq] at hdeep
    omega
  obtain rfl := hbinary.opening.eq_nil
  exact ⟨rfl, hbinary.balanced hb⟩

/-- A node is read from a piece of the text. -/
def Within (f o : Nat) (x : List Char) (n : Expr) : Prop :=
  ∃ a y b lv k, x = a ++ y ++ b ∧ Reads f lv k (o + Text.byteLength a) y n ∧ Covered f (o + Text.byteLength a) y n

theorem Reads.within_self (h : Reads f lv k o x e) (hf : Covered f o x e) : Within f o x e :=
  ⟨[], x, [], lv, k, by simp, h, hf⟩

theorem Within.mono {a b y : List Char} {n : Expr} (h : Within f o' y n) (hx : x = a ++ y ++ b)
    (ho : o' = o + Text.byteLength a) : Within f o x n := by
  obtain ⟨a', y', b', lv, k, rfl, hreads, hcovered⟩ := h
  have hoffset : o' + Text.byteLength a' = o + Text.byteLength (a ++ a') := by
    rw [ho, Text.byteLength_append, Nat.add_assoc]
  rw [hoffset] at hreads hcovered
  exact ⟨a ++ a', y', b' ++ b, lv, k, by rw [hx]; simp only [List.append_assoc], hreads, hcovered⟩

theorem Within.of_argument {as : List Argument} {n : Expr} (hp : Argument.Placed o as)
    (h : ∃ b ∈ as, Within f b.start b.text n) : Within f o (Argument.written as) n := by
  induction as generalizing o with
  | nil =>
    obtain ⟨b, hb, -⟩ := h
    cases hb
  | cons a as ih =>
    obtain ⟨-, -, hstart, hplaced⟩ := hp
    obtain ⟨b, hb, hn⟩ := h
    rcases List.mem_cons.1 hb with rfl | hb
    · exact hn.mono (b := Argument.written as) rfl hstart
    · refine (ih hplaced ⟨b, hb, hn⟩).mono (a := a.comma ++ a.text) (b := []) ?_ ?_
      · simp [Argument.written]
      · rw [hstart, Text.byteLength_append, Nat.add_assoc]

theorem Reads.within (h : Reads f lv k o x e) : ∀ n ∈ e.nodes, Within f o x n := by
  have hself := h
  induction h with
  | literal | this | name =>
    intro n hn
    rw [Expr.nodes, List.mem_singleton] at hn
    subst hn
    exact hself.within_self (hself.covered_whole rfl)
  | paren hg ho h hg' ih => exact fun n hn => (ih h n hn).mono (by simp only [List.append_assoc]; rfl) ho
  | member h hg hg' hy ho ih =>
    intro n hn
    rcases List.mem_cons.1 hn with rfl | hn
    · exact hself.within_self (hself.covered_whole rfl)
    · exact (ih h n hn).mono (a := []) (by simp only [List.append_assoc]; rfl) rfl
  | call h hg hg' ih =>
    intro n hn
    rcases List.mem_cons.1 hn with rfl | hn
    · exact hself.within_self (hself.covered_whole rfl)
    · rcases List.mem_append.1 hn with hn | hn
      · exact (ih h n hn).mono (a := []) (by simp only [List.append_assoc]; rfl) rfl
      · cases hn
  | invoke h hg hg' ho hy hp has hg'' ih ihy ihas =>
    intro n hn
    rcases List.mem_cons.1 hn with rfl | hn
    · exact hself.within_self (hself.covered_whole rfl)
    rcases List.mem_append.1 hn with hn | hn
    · exact (ih h n hn).mono (a := []) (by simp only [List.append_assoc]; rfl) rfl
    rcases List.mem_append.1 hn with hn | hn
    · exact (ihy hy n hn).mono (by simp only [List.append_assoc]; rfl) ho
    obtain ⟨_, hb, hn⟩ := Expr.mem_nodesAll.1 hn
    obtain ⟨b, hmem, rfl⟩ := List.mem_map.1 hb
    refine (Within.of_argument hp ⟨b, hmem, ihas b hmem (has b hmem) n hn⟩).mono (List.append_assoc _ _ _) ?_
    rw [ho]
    simp only [Text.byteLength_append, Nat.add_assoc]
  | index h hg hg' ho hy hg'' ih ihy =>
    intro n hn
    rcases List.mem_cons.1 hn with rfl | hn
    · exact hself.within_self (hself.covered_whole rfl)
    rcases List.mem_append.1 hn with hn | hn
    · exact (ih h n hn).mono (a := []) (by simp only [List.append_assoc]; rfl) rfl
    · exact (ihy hy n hn).mono (by simp only [List.append_assoc]; rfl) ho
  | unary op hg ho h ih =>
    intro n hn
    rcases List.mem_cons.1 hn with rfl | hn
    · exact hself.within_self (h.covered_unary op hg ho)
    · exact (ih h n hn).mono (List.append_nil _).symm ho
  | binary op hk h hg hg' hdiv ho h' ih ih' =>
    intro n hn
    rcases List.mem_cons.1 hn with rfl | hn
    · exact hself.within_self (h.covered_binary op hg hg' hdiv ho h')
    rcases List.mem_append.1 hn with hn | hn
    · exact (ih h n hn).mono (a := []) (by simp only [List.append_assoc]; rfl) rfl
    · exact (ih' h' n hn).mono (List.append_nil _).symm ho
  | lift _ h ih => exact ih h

/-! ## Moving a text -/

theorem spanAt_shift (f o n : Nat) (x : List Char) : (spanAt f o x).shift n = spanAt f (o + n) x := by
  simp only [Span.shift, spanAt]
  congr 1
  omega

theorem arguments_moved {as : List Argument} (hp : Argument.Placed (o + n) as)
    (has : ∀ b ∈ as, ∀ o, b.start = o + n → ∃ v, Reads f false 0 o b.text v ∧ v.shift n = b.value) :
    ∃ as', Argument.Placed o as' ∧ Argument.written as' = Argument.written as ∧
      (∀ b ∈ as', Reads f false 0 b.start b.text b.value) ∧
      Expr.mapSpansAll (Span.shift n) (as'.map (·.value)) = as.map (·.value) := by
  induction as generalizing o with
  | nil => exact ⟨[], trivial, rfl, nofun, rfl⟩
  | cons b as ih =>
    obtain ⟨hbefore, hafter, hstart, hplaced⟩ := hp
    have hstart' : b.start = o + Text.byteLength b.comma + n := by rw [hstart]; omega
    obtain ⟨v, hv, hshift⟩ := has b List.mem_cons_self _ hstart'
    have hplaced' : Argument.Placed (o + Text.byteLength b.comma + Text.byteLength b.text + n) as := by
      rw [hstart'] at hplaced
      rwa [Nat.add_right_comm _ _ n]
    obtain ⟨as', hp', hwritten, hreads, hvalues⟩ := ih hplaced' fun b' hb' => has b' (List.mem_cons_of_mem _ hb')
    refine ⟨⟨b.before, b.after, o + Text.byteLength b.comma, b.text, v⟩ :: as', ⟨hbefore, hafter, rfl, hp'⟩, ?_, ?_, ?_⟩
    · simp only [Argument.written, List.flatMap_cons] at hwritten ⊢
      rw [hwritten]
      rfl
    · exact List.forall_mem_cons.2 ⟨hv, hreads⟩
    · simp only [List.map_cons, Expr.mapSpansAll, hvalues]
      exact congrArg (· :: _) hshift

/-- A text that is read further on is read as well at a place before. -/
theorem Reads.moved (h : Reads f lv k o x e) :
    ∀ o₀ n, o = o₀ + n → ∃ e', Reads f lv k o₀ x e' ∧ e'.shift n = e := by
  induction h with
  | literal h =>
    rintro o n rfl
    exact ⟨_, .literal h, by rw [Expr.shift, Expr.mapSpans, spanAt_shift]⟩
  | this =>
    rintro o n rfl
    exact ⟨_, .this, by rw [Expr.shift, Expr.mapSpans, spanAt_shift]⟩
  | name h =>
    rintro o n rfl
    exact ⟨_, .name h, by rw [Expr.shift, Expr.mapSpans, Identifier.mapSpan, spanAt_shift]⟩
  | paren hg ho h hg' ih =>
    rintro o n rfl
    obtain ⟨e', he', hshift⟩ := ih (o + _) n (ho.trans (Nat.add_right_comm _ _ _))
    exact ⟨e', .paren hg rfl he' hg', hshift⟩
  | member h hg hg' hy ho ih =>
    rintro o n rfl
    obtain ⟨e', he', rfl⟩ := ih o n rfl
    refine ⟨_, .member he' hg hg' hy rfl, ?_⟩
    rw [Expr.shift, Expr.mapSpans, Identifier.mapSpan, spanAt_shift, spanAt_shift, ho, Nat.add_right_comm]
  | call h hg hg' ih =>
    rintro o n rfl
    obtain ⟨e', he', rfl⟩ := ih o n rfl
    exact ⟨_, .call he' hg hg', by rw [Expr.shift, Expr.mapSpans, Expr.mapSpansAll, spanAt_shift]⟩
  | invoke h hg hg' ho hy hp has hg'' ih ihy ihas =>
    rename_i x g g' y as g'' _ _
    rintro o n rfl
    obtain ⟨e', he', rfl⟩ := ih o n rfl
    obtain ⟨a', ha', rfl⟩ := ihy (o + _) n (ho.trans (Nat.add_right_comm _ _ _))
    have hp : Argument.Placed (o + Text.byteLength (x ++ g ++ ['('] ++ g') + Text.byteLength y + n) as := by
      rwa [ho, Nat.add_right_comm o, Nat.add_right_comm _ n] at hp
    obtain ⟨as', hp', hwritten, hreads, hvalues⟩ := arguments_moved hp fun b hb o ho => ihas b hb o n ho
    have hinvoke := Reads.invoke he' hg hg' rfl ha' hp' hreads hg''
    rw [hwritten] at hinvoke
    exact ⟨_, hinvoke, by rw [Expr.shift, Expr.mapSpans, Expr.mapSpansAll, hvalues, spanAt_shift]⟩
  | index h hg hg' ho hy hg'' ih ihy =>
    rintro o n rfl
    obtain ⟨e', he', rfl⟩ := ih o n rfl
    obtain ⟨i', hi', rfl⟩ := ihy (o + _) n (ho.trans (Nat.add_right_comm _ _ _))
    exact ⟨_, .index he' hg hg' rfl hi' hg'', by rw [Expr.shift, Expr.mapSpans, spanAt_shift]⟩
  | unary op hg ho h ih =>
    rintro o n rfl
    obtain ⟨e', he', rfl⟩ := ih (o + _) n (ho.trans (Nat.add_right_comm _ _ _))
    exact ⟨_, .unary op hg rfl he', by rw [Expr.shift, Expr.mapSpans, Expr.span_mapSpans]; rfl⟩
  | binary op hk h hg hg' hdiv ho h' ih ih' =>
    rintro o n rfl
    obtain ⟨e', he', rfl⟩ := ih o n rfl
    obtain ⟨r', hr', rfl⟩ := ih' (o + _) n (ho.trans (Nat.add_right_comm _ _ _))
    exact ⟨_, .binary op hk he' hg hg' hdiv rfl hr', Expr.shift_ofOperands n op e' r'⟩
  | lift hk h ih =>
    rintro o n rfl
    obtain ⟨e', he', rfl⟩ := ih o n rfl
    exact ⟨e', .lift hk he', rfl⟩

theorem slice?_of_append {a t b : List Char} {s : Span} (hs : s = spanAt f (Text.byteLength a) t) :
    s.slice? (a ++ t ++ b) = some t := by
  subst hs
  exact Text.slice?_eq_some_iff.2 ⟨a, b, by simp, rfl, rfl⟩

/-- What parses as an expression closes all the parentheses it opens. -/
theorem nest_of_parse {source file : String} (h : parseExpression source f file = .ok e) :
    ∃ m, Cminor.nest (.code, 0) source.toList = some (m, 0) := by
  obtain ⟨lead, x, trail, hsource, hlead, hreads, htrail⟩ := parseExpression_eq_ok_iff.1 h
  obtain ⟨p, t, q, j, j', hcut⟩ := hreads.cut
  obtain ⟨m, hm⟩ := nest_trail (n := 0) htrail
  exact ⟨m, by rw [hsource]; exact nest_join (nest_join (nest_gap hlead) (hcut.nest_text 0)) hm⟩

/-- A node can be read again from the text its span covers just if the parentheses in the text are balanced; else it can
from that text with the parentheses that are missing at its ends. -/
theorem reread_span {source file : String} (h : parseExpression source f file = .ok e) {n : Expr} (hn : n ∈ e.nodes) :
    ∃ u p t q v, source.toList = u ++ p ++ t ++ q ++ v ∧ n.span.slice? source.toList = some t ∧
      n.span.start = Text.byteLength (u ++ p) ∧ (∃ j, Opening j p) ∧ (∃ j, Closing j q) ∧
      ((∃ n', parseExpression (String.ofList t) f file = .ok n' ∧ n'.shift n.span.start = n) ↔ Balanced t) ∧
      ∃ n', parseExpression (String.ofList (p ++ t ++ q)) f file = .ok n' ∧ n'.shift (Text.byteLength u) = n := by
  obtain ⟨lead, x, trail, hsource, -, hreads, -⟩ := parseExpression_eq_ok_iff.1 h
  obtain ⟨a, y, b, lv, k, rfl, hnode, p, t, q, j, j', hcut, hbalanced⟩ := hreads.within n hn
  have htext : source.toList = lead ++ a ++ p ++ t ++ q ++ (b ++ trail) := by
    rw [hsource, hcut.text]
    simp only [List.append_assoc]
  have hspan : n.span = spanAt f (Text.byteLength (lead ++ a ++ p)) t := by
    rw [hcut.span]
    simp only [Text.byteLength_append]
  obtain ⟨n', hn', hshift⟩ := hnode.moved 0 (Text.byteLength (lead ++ a)) (by simp only [Text.byteLength_append]; omega)
  have hreread : parseExpression (String.ofList (p ++ t ++ q)) f file = .ok n' := by
    refine parseExpression_eq_ok_iff.2 ⟨[], y, [], ?_, .nil, hn'.rvalue.loosen (Nat.zero_le _), rfl⟩
    rw [String.toList_ofList, hcut.text]
    simp
  have hstart : n.span.start = Text.byteLength (lead ++ a ++ p) := by rw [hspan]; rfl
  refine ⟨lead ++ a, p, t, q, b ++ trail, htext, ?_, hstart, ⟨j, hcut.opening⟩, ⟨j', hcut.closing⟩, ⟨?_, ?_⟩, n', hreread,
    hshift⟩
  · rw [htext, List.append_assoc _ q]
    exact slice?_of_append hspan
  · -- The depth at the end is that of the text in the source, and that of a text that parses.
    rintro ⟨n'', hparse, -⟩
    obtain ⟨m, hm⟩ := nest_of_parse hparse
    rw [String.toList_ofList] at hm
    have hj := nest_add hm j
    have hnest := hcut.nest 0
    rw [Nat.zero_add] at hj hnest
    cases Option.some.inj (hj.symm.trans hnest)
    exact hm
  · intro hb
    obtain ⟨rfl, rfl⟩ := hbalanced hb
    rw [List.nil_append, List.append_nil] at hreread
    rw [List.append_nil] at hstart
    exact ⟨n', hreread, by rw [hstart]; exact hshift⟩

end

theorem parse_product : parseExpression "(a) * b" 0 "f" =
    .ok (.ofOperands .mul (.name ⟨"a", ⟨0, 1, 2⟩⟩ ⟨0, 1, 2⟩) (.name ⟨"b", ⟨0, 6, 7⟩⟩ ⟨0, 6, 7⟩)) := by
  have ha : Reads 0 false 9 1 ['a'] _ := .name (by decide)
  have hb : Reads 0 false 9 6 ['b'] _ := .name (by decide)
  have hparen : Reads 0 false 9 0 ['(', 'a', ')'] _ := .paren .nil rfl (ha.loosen (by decide)) .nil
  have hproduct : Reads 0 false 6 0 "(a) * b".toList _ :=
    .binary .mul rfl (hparen.loosen (by decide)) gap_space gap_space nofun rfl (hb.loosen (by decide))
  exact parseExpression_eq_ok_iff.2 ⟨[], _, [], rfl, .nil, hproduct.loosen (by decide), rfl⟩

/-- The product can be read again with the parenthesis before its span. -/
theorem reread_span_product : ∃ e, parseExpression "(a) * b" 0 "f" = .ok e ∧ e ∈ e.nodes ∧
    ∃ u p t q v, "(a) * b".toList = u ++ p ++ t ++ q ++ v ∧ e.span.slice? "(a) * b".toList = some t ∧
      e.span.start = Text.byteLength (u ++ p) ∧ (∃ j, Opening j p) ∧ (∃ j, Closing j q) ∧
      ((∃ n', parseExpression (String.ofList t) 0 "f" = .ok n' ∧ n'.shift e.span.start = e) ↔ Balanced t) ∧
      ∃ n', parseExpression (String.ofList (p ++ t ++ q)) 0 "f" = .ok n' ∧ n'.shift (Text.byteLength u) = e := by
  refine ⟨_, parse_product, List.mem_cons_self, ?_⟩
  exact reread_span parse_product List.mem_cons_self

/-- The span of a product whose first factor stands in parentheses begins behind the first of these. -/
theorem span_begins_in_parentheses : ∃ e, parseExpression "(a) * b" 0 "f" = .ok e ∧ e ∈ e.nodes ∧
    e.span.slice? "(a) * b".toList = some "a) * b".toList ∧ ∀ n', parseExpression "a) * b" 0 "f" ≠ .ok n' := by
  refine ⟨_, parse_product, List.mem_cons_self, by decide, ?_⟩
  intro n' hparse
  obtain ⟨m, hm⟩ := nest_of_parse hparse
  have hnone : Cminor.nest (.code, 0) "a) * b".toList = none := by decide
  cases hnone.symm.trans hm

end PegFront.Cminor
