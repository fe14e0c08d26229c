import Mathlib.Data.Bool.AllAny
import PegFront.Proofs.GrammarWords
import PegFront.Proofs.Nodes

/-!
# The forms of grammar text

A pattern written at a place that asks for a binding of level `k` is a head written for level `k + 1` with a row of
tails behind it, one for each operator of the level that was nested to the left (`Pattern.written_split`). At level 4 it
is an operand with a sign before or behind it (`Pattern.written_operand`), and at the tightest place a word, a quoted text
or something in brackets (`Pattern.exists_atom`). The first char of a text is one that no text ends before.
-/

namespace PegFront

namespace Pattern

/-! ## Names in patterns -/

/-- The pattern before it was linked. -/
def unlink (p : Pattern) : Pattern := p.mapCalls Call.unlink

/-- Whether the names and the text of a node are made so that the grammar text shows where they end. -/
def isWellNamed : Pattern → Bool
  | .act action _ => isPlainWord action
  | .keyword word => isPlainWord word
  | .keywords _ words => words.all isPlainWord
  | .call c => c.isWellNamed
  | .one (.oneOf set) => set.isWritable
  | _ => true

/-- All nodes of a pattern have such names. -/
def WellNamed (p : Pattern) : Prop := ∀ n ∈ p.nodes, n.isWellNamed = true

instance (p : Pattern) : Decidable p.WellNamed := inferInstanceAs (Decidable (∀ n ∈ p.nodes, _))

theorem WellNamed.child {p q : Pattern} (h : p.WellNamed) (hq : q ∈ p.children) : q.WellNamed :=
  fun n hn => h n (nodes_subset hq hn)

theorem WellNamed.self {p : Pattern} (h : p.WellNamed) : p.isWellNamed = true := h p (self_mem_nodes p)

/-! ## Texts by level -/

/-- The chars of a pattern at a place that asks for a binding. -/
def written (least : Nat) (p : Pattern) : List Char := (p.write true least).toList

theorem level_pos (p : Pattern) : 1 ≤ p.level := by cases p <;> simp [level]

theorem level_le (p : Pattern) : p.level ≤ 5 := by cases p <;> simp [level]

theorem written_of_le {k : Nat} {p : Pattern} (h : k ≤ p.level ∨ p.level = 5) : p.written k = p.written 0 := by
  cases p <;> simp only [level] at h <;> simp only [written, write, parenthesize, if_true]
  case seq | alt | diff | list | opt | many | many1 | expect | lookahead | notAhead =>
    rw [if_neg (by simp; omega), if_neg (by simp)]

theorem written_of_lt {k : Nat} {p : Pattern} (h : p.level < k) (h5 : p.level ≠ 5) :
    p.written k = '(' :: (p.written 0 ++ [')']) := by
  cases p <;> simp only [level] at h h5 <;> first | exact absurd rfl h5 | skip
  all_goals
    simp only [written, write, parenthesize]
    rw [if_pos (by simp; omega), if_neg (by simp)]
    simp

/-- A pattern of another level is written alike for two levels next to each other. -/
theorem written_succ {k : Nat} {p : Pattern} (h : k ≠ p.level ∨ p.level = 5) : p.written k = p.written (k + 1) := by
  by_cases h5 : p.level = 5
  · rw [written_of_le (.inr h5), written_of_le (k := k + 1) (.inr h5)]
  · have hk := h.resolve_right h5
    by_cases hlt : k < p.level
    · rw [written_of_le (.inl (by omega)), written_of_le (k := k + 1) (.inl (by omega))]
    · rw [written_of_lt (by omega) h5, written_of_lt (k := k + 1) (by omega) h5]

end Pattern

/-! ## Heads and tails -/

/-- The binary operators of grammar text. -/
inductive Operator where
  | alt
  | diff
  | seq
  | list
deriving DecidableEq

namespace Operator

def level : Operator → Nat
  | .alt => 1
  | .diff => 2
  | .seq | .list => 3

def symbol : Operator → List Char
  | .alt => [' ', '|', ' ']
  | .diff => [' ', '-', ' ']
  | .seq => [' ']
  | .list => [' ', '%', ' ']

def apply : Operator → Pattern → Pattern → Pattern
  | .alt => .alt
  | .diff => .diff
  | .seq => .seq
  | .list => .list

end Operator

/-- What is put behind a pattern: an operator with its second operand, or an action. -/
inductive Tail where
  | operation (op : Operator) (operand : Pattern)
  | action (id : String)

namespace Tail

def level : Tail → Nat
  | .operation op _ => op.level
  | .action _ => 5

def text : Tail → List Char
  | .operation op p => op.symbol ++ p.written (op.level + 1)
  | .action id => '\x7b' :: (id.toList ++ ['\x7d'])

def attach (p : Pattern) : Tail → Pattern
  | .operation op q => op.apply p q
  | .action id => .act id p

def unlink : Tail → Tail
  | .operation op p => .operation op p.unlink
  | .action id => .action id

def WellNamed : Tail → Prop
  | .operation _ p => p.WellNamed
  | .action id => isPlainWord id = true

end Tail

namespace Pattern

/-- A pattern cut into what is written for the next level and the tails of a level. The items of a list are never cut,
since a list does not nest to the left. -/
def split (k : Nat) : Pattern → Pattern × List Tail
  | .alt a b => if k = 1 then ((split k a).1, (split k a).2 ++ [.operation .alt b]) else (.alt a b, [])
  | .diff a b => if k = 2 then ((split k a).1, (split k a).2 ++ [.operation .diff b]) else (.diff a b, [])
  | .seq a b => if k = 3 then ((split k a).1, (split k a).2 ++ [.operation .seq b]) else (.seq a b, [])
  | .list a b => if k = 3 then (a, [.operation .list b]) else (.list a b, [])
  | .act action p => if k = 5 then ((split k p).1, (split k p).2 ++ [.action action]) else (.act action p, [])
  | p => (p, [])

def isAct : Pattern → Bool
  | .act .. => true
  | _ => false

variable {k : Nat}

theorem split_of_ne {p : Pattern} (h : k ≠ p.level ∨ p.level = 5 ∧ p.isAct = false) : p.split k = (p, []) := by
  cases p <;> simp_all [split, level, isAct]

theorem written_split (hk : k ≠ 4) (p : Pattern) :
    p.written k = (p.split k).1.written (k + 1) ++ (p.split k).2.flatMap Tail.text := by
  induction p with
  | alt a b iha | diff a b iha | seq a b iha =>
    simp only [split]
    split_ifs with h
    · subst h
      rw [List.flatMap_append, ← List.append_assoc, ← iha]
      simp [written, write, parenthesize, Tail.text, Operator.symbol, Operator.level]
    · rw [written_succ (.inl h), List.flatMap_nil, List.append_nil]
  | list a b =>
    simp only [split]
    split_ifs with h
    · subst h
      simp [written, write, parenthesize, Tail.text, Operator.symbol, Operator.level]
    · rw [written_succ (.inl h), List.flatMap_nil, List.append_nil]
  | act action p ih =>
    simp only [split]
    split_ifs with h
    · subst h
      rw [List.flatMap_append, ← List.append_assoc, ← ih]
      simp [written, write, Tail.text]
    · rw [written_succ (.inr rfl), List.flatMap_nil, List.append_nil]
  | _ =>
    rw [split_of_ne (by simp [level, isAct, hk]), written_succ (by simp [level, hk]), List.flatMap_nil,
      List.append_nil]

theorem unlink_split (p : Pattern) :
    p.unlink = ((p.split k).2.map Tail.unlink).foldl Tail.attach (p.split k).1.unlink := by
  induction p with
  | alt a b iha | diff a b iha | seq a b iha | act a b iha =>
    simp only [split]
    split_ifs
    · rw [List.map_append, List.foldl_append, ← iha]
      rfl
    · rfl
  | list a b =>
    simp only [split]
    split_ifs <;> rfl
  | _ => rfl

theorem wellNamed_split {p : Pattern} (h : p.WellNamed) :
    (p.split k).1.WellNamed ∧ ∀ t ∈ (p.split k).2, t.level = k ∧ t.WellNamed := by
  induction p with
  | alt a b iha | diff a b iha | seq a b iha =>
    have ha : a.WellNamed := h.child (by simp [children])
    have hb : b.WellNamed := h.child (by simp [children])
    simp only [split]
    split_ifs with hk
    · obtain ⟨hhead, htails⟩ := iha ha
      exact ⟨hhead, List.forall_mem_append.2 ⟨htails, List.forall_mem_singleton.2 ⟨hk.symm, hb⟩⟩⟩
    · exact ⟨h, List.forall_mem_nil _⟩
  | list a b =>
    have ha : a.WellNamed := h.child (by simp [children])
    have hb : b.WellNamed := h.child (by simp [children])
    simp only [split]
    split_ifs with hk
    · exact ⟨ha, List.forall_mem_singleton.2 ⟨hk.symm, hb⟩⟩
    · exact ⟨h, List.forall_mem_nil _⟩
  | act action p ih =>
    have hp : p.WellNamed := h.child (by simp [children])
    simp only [split]
    split_ifs with hk
    · obtain ⟨hhead, htails⟩ := ih hp
      exact ⟨hhead, List.forall_mem_append.2 ⟨htails, List.forall_mem_singleton.2 ⟨hk.symm, h.self⟩⟩⟩
    · exact ⟨h, List.forall_mem_nil _⟩
  | _ => exact ⟨h, List.forall_mem_nil _⟩

theorem isAct_split (p : Pattern) : (p.split 5).1.isAct = false := by
  induction p with
  | act action p ih => exact ih
  | _ => rfl

variable {p : Pattern}

/-! ## Words and brackets -/

/-- The text of a terminal or call that is a single word. -/
def word? : Pattern → Option (List Char)
  | .empty => some "empty".toList
  | .one (.exactly _) | .one (.oneOf _) => none
  | .one kind => some kind.display.toList
  | .call c => some (c.write true).toList
  | _ => none

/-- How a pattern stands at the tightest place: a word, and behind it what is in quotes or brackets. -/
inductive Atom : Pattern → List Char → List Char → Prop
  | word {p : Pattern} {x : List Char} (h : p.word? = some x) : Atom p x []
  | char (c : Char) : Atom (.one (.exactly c)) [] ('\'' :: ([c].flatMap Text.escapedChar ++ ['\'']))
  | set (set : CharSet) : Atom (.one (.oneOf set)) [] ('[' :: (set.text.toList ++ [']']))
  | text (literal : String) : Atom (.text literal) [] ('"' :: (literal.toList.flatMap Text.escapedChar ++ ['"']))
  | keyword (word : String) : Atom (.keyword word) "keyword".toList ('(' :: '"' :: (word.toList ++ ['"', ')']))
  | keywords (p : Pattern) (words : List String) : Atom (.keywords p words) "keyword_list".toList
      ('(' :: (p.written 0 ++ ',' :: ' ' :: '[' ::
        ((", ".intercalate (words.map fun w => "\"" ++ w ++ "\"")).toList ++ [']', ')'])))
  | token (p : Pattern) : Atom (.token p) "token".toList ('(' :: (p.written 0 ++ [')']))
  | group {p : Pattern} (h : p.level ≠ 5) : Atom p [] ('(' :: (p.written 0 ++ [')']))

/-- The terminal a word stands for. -/
def builtin? (x : List Char) : Option Pattern :=
  [.empty, .one .any, .one .space, .one .letter, .one .digit, .one .hexDigit, .one .punctuation, .one .wordStart,
    .one .wordChar].find? fun p => p.word? == some x

theorem builtin?_or_call {x : List Char} (h : p.word? = some x) :
    builtin? x = some p ∧ p.unlink = p ∨ ∃ c, p = .call c ∧ x = (c.write true).toList := by
  cases p with
  | empty =>
    obtain rfl := Option.some.inj h
    exact .inl ⟨by decide, rfl⟩
  | one kind =>
    cases kind with
    | exactly | oneOf => cases h
    | _ =>
      obtain rfl := Option.some.inj h
      exact .inl ⟨by decide, rfl⟩
  | call c => exact .inr ⟨c, rfl, (Option.some.inj h).symm⟩
  | _ => cases h

theorem builtin?_write {c : Call} (h : c.isWellNamed = true) : builtin? (c.write true).toList = none := by
  have hne : ∀ {w : String}, w ∈ builtinWords → some w.toList ≠ some (c.write true).toList := fun hw heq =>
    Call.write_ne_builtin h hw (Option.some.inj heq).symm
  simp only [builtin?, List.find?_eq_none, List.forall_mem_cons, beq_iff_eq, word?, CharKind.display]
  refine ⟨hne ?_, hne ?_, hne ?_, hne ?_, hne ?_, hne ?_, hne ?_, hne ?_, hne ?_, nofun⟩ <;> decide

/-- A word shows the terminal or the call. -/
theorem unlink_eq_of_word {q : Pattern} (hp : p.WellNamed) (hq : q.WellNamed) {x : List Char} (h : p.word? = some x)
    (h' : q.word? = some x) : p.unlink = q.unlink := by
  obtain ⟨hb, hself⟩ | ⟨c, rfl, rfl⟩ := builtin?_or_call h <;>
    obtain ⟨hb', hself'⟩ | ⟨c', rfl, hx⟩ := builtin?_or_call h'
  · rw [Option.some.inj (hb.symm.trans hb')]
  · subst hx
    cases hb.symm.trans (builtin?_write hq.self)
  · cases hb'.symm.trans (builtin?_write hp.self)
  · exact congrArg Pattern.call (Call.unlink_eq_of_write hp.self hq.self hx)

theorem isTextChar_word {x : List Char} (hp : p.WellNamed) (h : p.word? = some x) :
    x ≠ [] ∧ ∀ c ∈ x, Call.isTextChar c = true := by
  cases p with
  | empty =>
    obtain rfl := Option.some.inj h
    exact ⟨by decide, List.all_eq_true.1 (by decide)⟩
  | one kind =>
    cases kind with
    | exactly | oneOf => cases h
    | _ =>
      obtain rfl := Option.some.inj h
      exact ⟨by decide, List.all_eq_true.1 (by decide)⟩
  | call c =>
    obtain rfl := Option.some.inj h
    exact ⟨Call.write_ne_nil hp.self, Call.isTextChar_write hp.self⟩
  | _ => cases h

theorem exists_atom (h : p.isAct = false) : ∃ x y, Atom p x y ∧ p.written 6 = x ++ y := by
  by_cases h5 : p.level = 5
  · cases p with
    | empty => exact ⟨_, _, .word rfl, by rw [written, write, List.append_nil]⟩
    | one kind =>
      cases kind with
      | exactly c => exact ⟨_, _, .char c, by simp [written, write, CharKind.display, Text.escapeAscii]⟩
      | oneOf set => exact ⟨_, _, .set set, by simp [written, write, CharKind.display]⟩
      | _ => exact ⟨_, _, .word rfl, by rw [written, write, List.append_nil]⟩
    | text literal => exact ⟨_, _, .text literal, by simp [written, write, Text.escapeAscii]⟩
    | keyword word => exact ⟨_, _, .keyword word, by simp [written, write]⟩
    | keywords p words => exact ⟨_, _, .keywords p words, by simp [written, write]⟩
    | token p => exact ⟨_, _, .token p, by simp [written, write]⟩
    | call c => exact ⟨_, _, .word rfl, by rw [written, write, List.append_nil]⟩
    | act => cases h
    | _ => cases h5
  · exact ⟨_, _, .group h5, by rw [written_of_lt (by have := p.level_le; omega) h5]; rfl⟩

theorem Atom.isTextChar {x y : List Char} (hp : p.WellNamed) (h : Atom p x y) :
    ∀ c ∈ x, Call.isTextChar c = true := by
  cases h with
  | word h => exact (isTextChar_word hp h).2
  | char | set | text | group => exact nofun
  | keyword | keywords | token => exact List.all_eq_true.1 (by decide)

/-- The patterns that stand between brackets at the tightest place. -/
def enclosed : Pattern → List Pattern
  | .token p | .keywords p _ => [p]
  | p => if p.level = 5 then [] else [p]

theorem mem_enclosed (h : p.level ≠ 5) : p ∈ p.enclosed := by
  cases p <;> simp_all [enclosed, level]

/-! ## Signs -/

/-- What stands in front of the operand of a sign. -/
def before : Pattern → List Char
  | .lookahead _ => ['&']
  | .notAhead _ => ['!']
  | _ => []

/-- What stands behind the operand of a sign. -/
def after : Pattern → List Char
  | .opt _ => ['?']
  | .many _ => ['*']
  | .many1 _ => ['+']
  | .expect _ => ['!']
  | _ => []

def operand : Pattern → Pattern
  | .opt p | .many p | .many1 p | .expect p | .lookahead p | .notAhead p => p
  | p => p

/-- The pattern with the signs around it. -/
def sign (before after : List Char) (p : Pattern) : Pattern :=
  if before = ['&'] then .lookahead p
  else if before = ['!'] then .notAhead p
  else if after = ['?'] then .opt p
  else if after = ['*'] then .many p
  else if after = ['+'] then .many1 p
  else if after = ['!'] then .expect p
  else p

theorem written_operand (p : Pattern) : p.written 4 = p.before ++ (p.operand.written 5 ++ p.after) := by
  by_cases h : p.level = 4
  · cases p <;> simp_all [level, before, after, operand, written, write, parenthesize]
  · rw [written_succ (.inl (Ne.symm h))]
    cases p <;> first | exact absurd rfl h | simp [before, after, operand]

theorem unlink_operand (p : Pattern) : p.unlink = sign p.before p.after p.operand.unlink := by
  cases p <;> rfl

theorem WellNamed.operand (h : p.WellNamed) : p.operand.WellNamed := by
  cases p with
  | opt | many | many1 | expect | lookahead | notAhead => exact h.child (by simp [children, Pattern.operand])
  | _ => exact h

theorem operand_of_level (h : p.level ≠ 4) : p.operand = p := by
  cases p <;> first | rfl | exact absurd rfl h

/-! ## How texts begin -/

/-- A char the text of a pattern may begin with; the signs of the two lookaheads only at a place that asks for less
than the tightest binding. -/
def Opens (k : Nat) (c : Char) : Prop :=
  Call.isTextChar c = true ∨ c ∈ ['(', '\'', '"', '['] ∨ k ≤ 4 ∧ c ∈ ['&', '!']

/-- Nothing that may follow a text or stand inside a tail begins like a text. -/
theorem Opens.apart {c : Char} (h : Opens k c) : c ∉ [')', ',', ' ', '|', '-', '%', '?', '*', '+', '\x7b'] := by
  have hword : ∀ d ∈ [')', ',', ' ', '|', '-', '%', '?', '*', '+', '\x7b'], Call.isTextChar d = false :=
    List.all_iff_forall_prop.1 (by decide)
  have hmark : ∀ d ∈ ['(', '\'', '"', '[', '&', '!'], d ∉ [')', ',', ' ', '|', '-', '%', '?', '*', '+', '\x7b'] :=
    List.all_iff_forall_prop.1 (by decide)
  obtain h | h | ⟨-, h⟩ := h
  · exact fun hc => Bool.noConfusion (h.symm.trans (hword c hc))
  · exact hmark c (List.mem_append_left ['&', '!'] h)
  · exact hmark c (List.mem_append_right ['(', '\'', '"', '['] h)

theorem Opens.not_sign {c : Char} (h : Opens 5 c) : c ∉ ['&', '!'] := by
  have hword : ∀ d ∈ ['&', '!'], Call.isTextChar d = false := List.all_iff_forall_prop.1 (by decide)
  have hbracket : ∀ d ∈ ['(', '\'', '"', '['], d ∉ ['&', '!'] := List.all_iff_forall_prop.1 (by decide)
  obtain h | h | ⟨h, -⟩ := h
  · exact fun hc => Bool.noConfusion (h.symm.trans (hword c hc))
  · exact hbracket c h
  · exact absurd h (by decide)

theorem Opens.loosen {j : Nat} {c : Char} (h : Opens j c) (hk : k ≤ j) : Opens k c := by
  obtain h | h | ⟨hj, h⟩ := h
  · exact .inl h
  · exact .inr (.inl h)
  · exact .inr (.inr ⟨by omega, h⟩)

/-- The text of a pattern begins with a char that opens one. -/
theorem exists_opens (hp : p.WellNamed) (hk : k ≤ 5) : ∃ c x, p.written k = c :: x ∧ Opens k c := by
  have hsix : ∀ {q : Pattern}, q.WellNamed → q.isAct = false → ∃ c x, q.written 6 = c :: x ∧ Opens 6 c := by
    intro q hq hact
    obtain ⟨x, y, hatom, hx⟩ := exists_atom hact
    rw [hx]
    cases hatom with
    | word h =>
      obtain ⟨hne, hall⟩ := isTextChar_word hq h
      obtain ⟨c, z, rfl⟩ := List.exists_cons_of_ne_nil hne
      exact ⟨c, _, rfl, .inl (hall c List.mem_cons_self)⟩
    | char | set | text | group => exact ⟨_, _, rfl, .inr (.inl (by decide))⟩
    | keyword | keywords | token => exact ⟨_, _, rfl, .inl (by decide)⟩
  -- From the tightest level down: at each one the text begins with a sign or as the head does.
  have hall : ∀ j k, k + j = 5 → ∀ {q : Pattern}, q.WellNamed → ∃ c x, q.written k = c :: x ∧ Opens k c := by
    intro j
    induction j with
    | zero =>
      intro k hk q hq
      obtain rfl : k = 5 := hk
      obtain ⟨c, x, hx, hc⟩ := hsix (wellNamed_split hq).1 (isAct_split q)
      exact ⟨c, _, by rw [written_split (by decide), hx]; rfl, hc.loosen (by decide)⟩
    | succ j ih =>
      intro k hk q hq
      by_cases h4 : k = 4
      · subst h4
        obtain ⟨c, x, hx, hc⟩ := ih 5 (by omega) hq.operand
        rw [written_operand, hx]
        cases q with
        | lookahead | notAhead => exact ⟨_, _, rfl, .inr (.inr (by decide))⟩
        | _ => exact ⟨c, _, rfl, hc.loosen (by decide)⟩
      · obtain ⟨c, x, hx, hc⟩ := ih (k + 1) (by omega) (wellNamed_split hq).1
        exact ⟨c, _, by rw [written_split h4, hx]; rfl, hc.loosen (Nat.le_succ k)⟩
  exact hall (5 - k) k (by omega) hp

end Pattern

end PegFront
