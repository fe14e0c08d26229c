import PegFront.Proofs.GrammarForms

/-!
# Grammar text

Grammar text stands for one pattern only, targets of calls apart (`Pattern.unlink_eq_of_display`). What may follow a text
of a level tells a tail from the end of the text, so a pattern is read off for a level if its head is for the next one and
its tails are; the pattern that stands in brackets at the tightest place is read off as for the loosest.
-/

namespace PegFront

namespace Pattern

variable {k : Nat}

/-! ## What follows a text -/

/-- What begins the texts that may follow the text of a pattern, with the level from which on it may. -/
def marks : List (Nat × List Char) :=
  [(1, [')']), (1, [',']), (2, [' ', '|', ' ']), (3, [' ', '-', ' ']), (4, [' ']), (5, ['?']), (5, ['*']), (5, ['+']),
    (5, ['!']), (6, ['\x7b'])]

/-- What may follow the text of a pattern at a place that asks for a level. -/
def Follows (k : Nat) (s : List Char) : Prop := s = [] ∨ ∃ m ∈ marks, m.1 ≤ k ∧ m.2 <+: s

theorem Follows.mono {j : Nat} {s : List Char} (h : Follows j s) (hj : j ≤ k) : Follows k s := by
  obtain rfl | ⟨m, hm, hle, hs⟩ := h
  · exact .inl rfl
  · exact .inr ⟨m, hm, Nat.le_trans hle hj, hs⟩

theorem Follows.head {P : Char → Bool} (hP : ∀ m ∈ marks, m.1 ≤ k → m.2.head?.all P = true) {s : List Char}
    (h : Follows k s) : ∀ c ∈ s.head?, P c = true := by
  intro c hc
  obtain rfl | ⟨m, hm, hle, ⟨t, rfl⟩⟩ := h
  · cases hc
  · have hmark := hP m hm hle
    have hne : ∀ m ∈ marks, m.2 ≠ [] := by decide
    obtain ⟨d, x, hx⟩ := List.exists_cons_of_ne_nil (hne m hm)
    rw [hx] at hc hmark
    exact Option.some.inj hc ▸ hmark

/-- No bracket or quote opens where a text may end. -/
theorem Follows.ne_cons {c : Char} (hc : ['(', '\'', '"', '['].contains c = true) {s t : List Char} (h : Follows 6 s) :
    s ≠ c :: t := by
  rintro rfl
  have hno := h.head (P := fun c => ['(', '\'', '"', '['].contains c == false) (by decide) c rfl
  rw [hc] at hno
  cases hno

/-! ## Reading tails off -/

/-- At the tightest place stand patterns without an action behind them. -/
def Proper (k : Nat) (p : Pattern) : Prop := p.WellNamed ∧ (k = 6 → p.isAct = false)

/-- The text of a pattern for a level is that of no other pattern, targets apart. -/
def Clear (k : Nat) (p : Pattern) : Prop := Legible (written k) (Proper k) (Follows k) unlink p

end Pattern

namespace Tail

open Pattern (Follows)

variable {k : Nat} {t : Tail}

def Clear (k : Nat) (t : Tail) : Prop :=
  Legible text (fun u => u.level = k ∧ u.WellNamed) (Follows (k + 1)) unlink t

/-- A tail may follow what is in front of it. -/
theorem follows (ht : t.level = k) (s : List Char) : Follows (k + 1) (t.text ++ s) := by
  subst ht
  cases t with
  | operation op p => cases op <;> simp [Follows, Pattern.marks, text, level, Operator.symbol, Operator.level]
  | action => simp [Follows, Pattern.marks, text, level]

/-- What stands behind a blank is no sign of an operator. -/
theorem written_ne_cons {p : Pattern} (hp : p.WellNamed) {c : Char} (hc : c ∈ ['|', '-', '%']) (s t : List Char) :
    p.written 4 ++ s ≠ c :: t := by
  obtain ⟨d, x, hx, hd⟩ := Pattern.exists_opens hp (k := 4) (by decide)
  rw [hx]
  intro h
  obtain rfl := (List.cons.inj h).1
  have hin : ∀ c ∈ ['|', '-', '%'], c ∈ [')', ',', ' ', '|', '-', '%', '?', '*', '+', '\x7b'] :=
    List.all_iff_forall_prop.1 (by decide)
  exact hd.apart (hin d hc)

/-- A tail is not the end of a text of its level. -/
theorem not_follows (ht : t.level = k) (h : t.WellNamed) (s : List Char) : ¬ Follows k (t.text ++ s) := by
  subst ht
  cases t with
  | operation op p =>
    cases op with
    | seq =>
      -- A blank alone could be the beginning of the sign of a looser operator.
      have hno : ∀ c ∈ ['|', '-', '%'], ∀ u, p.written 4 ++ s ≠ c :: u := fun c hc u => written_ne_cons h hc s u
      generalize hx : p.written 4 ++ s = x at hno
      have htext : (Tail.operation .seq p).text ++ s = ' ' :: x := hx ▸ rfl
      rw [htext]
      cases x with
      | nil => simp [Follows, Pattern.marks, level, Operator.level]
      | cons c x =>
        have hbar : '|' ≠ c := fun hc => hno '|' (by decide) x (by rw [hc])
        have hdash : '-' ≠ c := fun hc => hno '-' (by decide) x (by rw [hc])
        simp [Follows, Pattern.marks, level, Operator.level, hbar, hdash]
    | _ => simp [Follows, Pattern.marks, text, level, Operator.symbol, Operator.level]
  | action => simp [Follows, Pattern.marks, text, level]

/-- The operator of a tail of a level is read off. -/
theorem operator_unique {op op' : Operator} (hlevel : op.level = op'.level) {p q : Pattern} (hp : p.WellNamed)
    (hq : q.WellNamed) {s s' : List Char} (h : op.symbol ++ (p.written (op.level + 1) ++ s) =
      op'.symbol ++ (q.written (op'.level + 1) ++ s')) : op = op' := by
  cases op <;> cases op' <;> first | rfl | cases hlevel
  · exact absurd (List.cons.inj h).2 (written_ne_cons hp (by decide) _ _)
  · exact absurd (List.cons.inj h).2.symm (written_ne_cons hq (by decide) _ _)

/-- An operation is read off if its operand is. -/
theorem clear_operation (op : Operator) {p : Pattern} (hp : p.WellNamed) (h : p.Clear (op.level + 1)) :
    (Tail.operation op p).Clear op.level := by
  rintro u s s' ⟨hlevel, hu⟩ hs hs' heq
  cases u with
  | operation op' q =>
    simp only [text, List.append_assoc] at heq
    obtain rfl := operator_unique hlevel.symm hp hu heq
    have hle : op.level + 1 ≠ 6 := by cases op <;> decide
    obtain ⟨hview, hss⟩ := h q s s' ⟨hu, fun h6 => absurd h6 hle⟩ hs hs' (List.append_cancel_left heq)
    exact ⟨congrArg (Tail.operation op) hview, hss⟩
  | action => cases op <;> cases hlevel

theorem clear_action {id : String} (h : isPlainWord id = true) : (Tail.action id).Clear 5 := by
  rintro u s s' ⟨hlevel, hu⟩ hs hs' heq
  cases u with
  | operation op => cases op <;> cases hlevel
  | action id' =>
    simp only [text, List.cons_append, List.append_assoc, List.nil_append] at heq
    obtain ⟨hid, hss⟩ := plainWord_unique h hu (by decide) (List.cons.inj heq).2
    exact ⟨congrArg Tail.action hid, hss⟩

end Tail

namespace Pattern

variable {k : Nat} {p : Pattern}

/-- A pattern is read off for a level if its head is for the next and its tails are. -/
theorem clear_of_split (hk : k ≠ 4) (hp : p.WellNamed) (hhead : (p.split k).1.Clear (k + 1))
    (htails : ∀ t ∈ (p.split k).2, t.Clear k) : p.Clear k := by
  rintro q s s' ⟨hq, -⟩ hs hs' heq
  obtain ⟨-, hwell⟩ := wellNamed_split (k := k) hp
  obtain ⟨hhead', hwell'⟩ := wellNamed_split (k := k) hq
  have hlast : ∀ u, Follows k u → Follows (k + 1) u := fun u hu => hu.mono (Nat.le_succ k)
  have hnext : ∀ t u, Tail.level t = k ∧ t.WellNamed → Follows (k + 1) (t.text ++ u) :=
    fun t u ht => t.follows ht.1 u
  have hstop : ∀ t u, Tail.level t = k ∧ t.WellNamed → ¬ Follows k (t.text ++ u) :=
    fun t u ht => t.not_follows ht.1 ht.2 u
  have hrow : ∀ {ts : List Tail} {u}, (∀ t ∈ ts, t.level = k ∧ t.WellNamed) → Follows k u →
      Follows (k + 1) (ts.flatMap Tail.text ++ u) := fun hts hu => (between_flatMap hlast hnext hts hu :)
  rw [written_split hk p, written_split hk q, List.append_assoc, List.append_assoc] at heq
  have hact : k + 1 = 6 → (q.split k).1.isAct = false := by
    intro h6
    obtain rfl : k = 5 := Nat.succ.inj h6
    exact isAct_split q
  obtain ⟨hview, hrest⟩ := hhead (q.split k).1 _ _ ⟨hhead', hact⟩ (hrow hwell hs) (hrow hwell' hs') heq
  obtain ⟨hviews, hss⟩ := Legible.flatMap hlast hnext hstop hwell htails _ s s' hwell' hs hs' hrest
  exact ⟨by rw [unlink_split (k := k) p, unlink_split (k := k) q, hview, hviews], hss⟩

/-- A pattern with a sign is read off if its operand is. -/
theorem clear_of_operand (hp : p.WellNamed) (h : p.operand.Clear 5) : p.Clear 4 := by
  rintro q s s' ⟨hq, -⟩ hs hs' heq
  have hbefore : ∀ a : Pattern, ∀ c ∈ a.before, ['&', '!'].contains c = true := by
    intro a
    cases a <;> simp [before]
  have hafter : ∀ a : Pattern, ∀ c ∈ a.after, ['?', '*', '+', '!'].contains c = true := by
    intro a
    cases a <;> simp [after]
  have hopens : ∀ {a : Pattern}, a.WellNamed → ∀ u, ∀ c ∈ (a.operand.written 5 ++ u).head?,
      ['&', '!'].contains c = false := by
    intro a ha u c hc
    obtain ⟨d, x, hx, hd⟩ := exists_opens ha.operand (k := 5) (by decide)
    rw [hx] at hc
    obtain rfl := Option.some.inj hc
    exact Bool.eq_false_iff.2 fun hin => hd.not_sign (List.contains_iff_mem.1 hin)
  have hend : ∀ {u}, Follows 4 u → ∀ c ∈ u.head?, ['?', '*', '+', '!'].contains c = false := by
    intro u hu c hc
    exact eq_of_beq (hu.head (P := fun c => ['?', '*', '+', '!'].contains c == false) (by decide) c hc)
  have hfollows : ∀ (a : Pattern) {u}, Follows 4 u → Follows 5 (a.after ++ u) := by
    intro a u hu
    cases a with
    | opt | many | many1 | expect => simp [Follows, marks, after]
    | _ => exact hu.mono (by decide)
  rw [written_operand, written_operand q] at heq
  simp only [List.append_assoc] at heq
  obtain ⟨hb, heq⟩ := run_unique (hbefore p) (hbefore q) (hopens hp _) (hopens hq _) heq
  obtain ⟨hview, heq⟩ := h q.operand _ _ ⟨hq.operand, fun h6 => absurd h6 (by decide)⟩ (hfollows p hs) (hfollows q hs') heq
  obtain ⟨ha, hss⟩ := run_unique (hafter p) (hafter q) (hend hs) (hend hs') heq
  exact ⟨by rw [unlink_operand, unlink_operand q, hb, ha, hview], hss⟩

/-! ## Reading words and brackets off -/

/-- What is between brackets is read off up to the char that ends it. -/
theorem Clear.enclosed {q : Pattern} (h : p.Clear 1) (hq : q.WellNamed) {c : Char} (hc : c = ')' ∨ c = ',')
    {s s' : List Char} (heq : p.written 0 ++ c :: s = q.written 0 ++ c :: s') : p.unlink = q.unlink ∧ s = s' := by
  have hfollows : ∀ u, Follows 1 (c :: u) := by
    intro u
    rcases hc with rfl | rfl <;> simp [Follows, marks]
  rw [← written_of_le (k := 1) (.inl p.level_pos), ← written_of_le (k := 1) (.inl q.level_pos)] at heq
  obtain ⟨hview, hrest⟩ := h q _ _ ⟨hq, nofun⟩ (hfollows s) (hfollows s') heq
  exact ⟨hview, (List.cons.inj hrest).2⟩

/-- Words in quotes are read off up to the bracket behind the last one. -/
theorem words_unique {words words' : List String} (h : ∀ w ∈ words, isPlainWord w = true)
    (h' : ∀ w ∈ words', isPlainWord w = true) {s s' : List Char}
    (heq : (", ".intercalate (words.map fun w => "\"" ++ w ++ "\"")).toList ++ ']' :: s =
      (", ".intercalate (words'.map fun w => "\"" ++ w ++ "\"")).toList ++ ']' :: s') : words = words' ∧ s = s' := by
  have hwords : Legible (fun ws : List String => (", ".intercalate (ws.map fun w => "\"" ++ w ++ "\"")).toList)
      (fun ws => ∀ w ∈ ws, isPlainWord w = true) (fun u => u.head? = some ']') (List.map id) words := by
    refine @Legible.intercalate _ _ _ (fun _ => True) _ _ _ _ _ (fun _ _ => trivial) (fun _ => trivial) ?_ ?_ h ?_
    · exact fun u hu => absurd (Option.some.inj hu) (by decide)
    · intro w u _ hu
      simp at hu
    · intro w hw w' u u' hw' _ _ huu
      simp only [String.toList_append, List.append_assoc] at huu
      exact plainWord_unique (h w hw) hw' (by decide) (List.cons.inj huu).2
  obtain ⟨hview, hrest⟩ := hwords words' _ _ h' rfl rfl heq
  rw [List.map_id, List.map_id] at hview
  exact ⟨hview, (List.cons.inj hrest).2⟩

/-- What stands at the tightest place is read off, if what it encloses is. -/
theorem Atom.unique {q : Pattern} {x y x' y' s s' : List Char} (h : Atom p x y) (h' : Atom q x' y') (hp : p.WellNamed)
    (hq : q.WellNamed) (hclear : ∀ r ∈ p.enclosed, r.Clear 1) (hs : Follows 6 s) (hs' : Follows 6 s')
    (heq : x ++ (y ++ s) = x' ++ (y' ++ s')) : p.unlink = q.unlink ∧ s = s' := by
  have hend : ∀ {a : Pattern} {z w u : List Char}, Atom a z w → Follows 6 u → ∀ c ∈ (w ++ u).head?,
      Call.isTextChar c = false := by
    intro a z w u ha hu c hc
    cases ha with
    | word => exact Bool.not_eq_true' _ ▸ hu.head (P := fun c => !Call.isTextChar c) (by decide) c hc
    | _ => exact Option.some.inj hc ▸ by decide
  obtain ⟨hlead, hrest⟩ := run_unique (h.isTextChar hp) (h'.isTextChar hq) (hend h hs) (hend h' hs') heq
  cases h with
  | word hx =>
    cases h' with
    | word hx' => exact ⟨unlink_eq_of_word hp hq hx (hlead ▸ hx'), hrest⟩
    | _ => exact absurd hrest (hs.ne_cons (by decide))
  | char c =>
    cases h' with
    | word => exact absurd hrest.symm (hs'.ne_cons (by decide))
    | char c' =>
      simp only [List.cons_append, List.append_assoc, List.nil_append] at hrest
      obtain ⟨hc, hss⟩ := Text.Escaped.flatMap_unique (by decide) (Text.escaped_escapedChar (.inl rfl))
        (List.cons.inj hrest).2
      exact ⟨by rw [(List.cons.inj hc).1], hss⟩
    | _ => exact absurd (List.cons.inj hrest).1 (by decide)
  | set set =>
    cases h' with
    | word => exact absurd hrest.symm (hs'.ne_cons (by decide))
    | set set' =>
      simp only [List.cons_append, List.append_assoc, List.nil_append] at hrest
      obtain ⟨htext, hss⟩ := (CharSet.enclosed_of_writable hp.self).unique (CharSet.enclosed_of_writable hq.self)
        (List.cons.inj hrest).2
      exact ⟨by rw [CharSet.eq_of_text hp.self hq.self (String.toList_inj.1 htext)], hss⟩
    | _ => exact absurd (List.cons.inj hrest).1 (by decide)
  | text literal =>
    cases h' with
    | word => exact absurd hrest.symm (hs'.ne_cons (by decide))
    | text literal' =>
      simp only [List.cons_append, List.append_assoc, List.nil_append] at hrest
      obtain ⟨hl, hss⟩ := Text.Escaped.flatMap_unique (by decide) (Text.escaped_escapedChar (.inr rfl))
        (List.cons.inj hrest).2
      exact ⟨by rw [String.toList_inj.1 hl], hss⟩
    | _ => exact absurd (List.cons.inj hrest).1 (by decide)
  | keyword word =>
    cases h' with
    | word => exact absurd hrest.symm (hs'.ne_cons (by decide))
    | keyword word' =>
      simp only [List.cons_append, List.append_assoc, List.nil_append] at hrest
      obtain ⟨rfl, hss⟩ := plainWord_unique hp.self hq.self (by decide) (List.cons.inj (List.cons.inj hrest).2).2
      exact ⟨rfl, (List.cons.inj hss).2⟩
    | keywords | token | group => exact absurd hlead (by decide)
    | _ => exact absurd (List.cons.inj hrest).1 (by decide)
  | keywords a words =>
    cases h' with
    | word => exact absurd hrest.symm (hs'.ne_cons (by decide))
    | keywords a' words' =>
      simp only [List.cons_append, List.append_assoc, List.nil_append] at hrest
      obtain ⟨hselector, hrest⟩ := (hclear a List.mem_cons_self).enclosed (hq.child List.mem_cons_self) (.inr rfl)
        (List.cons.inj hrest).2
      obtain ⟨rfl, hss⟩ := words_unique (List.all_eq_true.1 hp.self) (List.all_eq_true.1 hq.self)
        (List.cons.inj (List.cons.inj hrest).2).2
      exact ⟨congrArg (Pattern.keywords · words) hselector, (List.cons.inj hss).2⟩
    | keyword | token | group => exact absurd hlead (by decide)
    | _ => exact absurd (List.cons.inj hrest).1 (by decide)
  | token a =>
    cases h' with
    | word => exact absurd hrest.symm (hs'.ne_cons (by decide))
    | token a' =>
      simp only [List.cons_append, List.append_assoc, List.nil_append] at hrest
      obtain ⟨hsubject, hss⟩ := (hclear a List.mem_cons_self).enclosed (hq.child List.mem_cons_self) (.inl rfl)
        (List.cons.inj hrest).2
      exact ⟨congrArg Pattern.token hsubject, hss⟩
    | keyword | keywords | group => exact absurd hlead (by decide)
    | _ => exact absurd (List.cons.inj hrest).1 (by decide)
  | group h5 =>
    cases h' with
    | word => exact absurd hrest.symm (hs'.ne_cons (by decide))
    | group h5' =>
      simp only [List.cons_append, List.append_assoc, List.nil_append] at hrest
      exact (hclear p (mem_enclosed h5)).enclosed hq (.inl rfl) (List.cons.inj hrest).2
    | keyword | keywords | token => exact absurd hlead (by decide)
    | _ => exact absurd (List.cons.inj hrest).1 (by decide)

theorem clear_of_enclosed (hp : p.WellNamed) (hact : p.isAct = false) (h : ∀ q ∈ p.enclosed, q.Clear 1) :
    p.Clear 6 := by
  rintro q s s' ⟨hq, hact'⟩ hs hs' heq
  obtain ⟨x, y, hatom, hx⟩ := exists_atom hact
  obtain ⟨x', y', hatom', hx'⟩ := exists_atom (hact' rfl)
  rw [hx, hx', List.append_assoc, List.append_assoc] at heq
  exact hatom.unique hatom' hp hq h hs hs' heq

/-! ## All patterns -/

/-- What a pattern is cut into at a level is read off. -/
def PartsClear (k : Nat) (p : Pattern) : Prop :=
  if k = 4 then p.operand.Clear 5 else (p.split k).1.Clear (k + 1) ∧ ∀ t ∈ (p.split k).2, t.Clear k

theorem PartsClear.clear (hp : p.WellNamed) (h : PartsClear k p) : p.Clear k := by
  unfold PartsClear at h
  split_ifs at h with hk
  · exact hk ▸ clear_of_operand hp h
  · exact clear_of_split hk hp h.1 h.2

/-- At a level of its own a pattern is not cut. -/
theorem partsClear_of_succ (hk : k ≠ p.level ∨ p.level = 5 ∧ p.isAct = false) (h : p.Clear (k + 1)) :
    PartsClear k p := by
  unfold PartsClear
  split_ifs with h4
  · subst h4
    rwa [operand_of_level (by omega)]
  · rw [split_of_ne hk]
    exact ⟨h, nofun⟩

/-- What is read off for a level is read off for the levels below it, down to the one of the pattern. -/
theorem partsClear_below (hp : p.WellNamed) {m n : Nat} (hne : ∀ k, m ≤ k → k ≤ n → k ≠ p.level)
    (h : p.Clear (n + 1)) : ∀ k, m ≤ k → k ≤ n → PartsClear k p := by
  have hall : ∀ j k, k + j = n → m ≤ k → PartsClear k p := by
    intro j
    induction j with
    | zero =>
      intro k hk hm
      obtain rfl : k = n := hk
      exact partsClear_of_succ (.inl (hne k hm (Nat.le_refl k))) h
    | succ j ih =>
      intro k hk hm
      exact partsClear_of_succ (.inl (hne k hm (by omega))) ((ih (k + 1) (by omega) (by omega)).clear hp)
  exact fun k hm hk => hall (n - k) k (by omega) hm

/-- A pattern that is read off for its own level is read off for every level: at a looser place it is written the same,
and at a tighter one in parentheses. -/
theorem partsClear_of_own (hp : p.WellNamed) (own : PartsClear p.level p) (hk : 1 ≤ k) (hk' : k ≤ 5) :
    PartsClear k p := by
  have hpos := p.level_pos
  have hle := p.level_le
  have hbelow : ∀ k, 1 ≤ k → k ≤ p.level → PartsClear k p := by
    intro k hk hk'
    by_cases hkl : k = p.level
    · exact hkl ▸ own
    · have hown : p.Clear (p.level - 1 + 1) := by
        rw [Nat.sub_add_cancel hpos]
        exact own.clear hp
      exact partsClear_below hp (m := 1) (fun j _ hj => by omega) hown k hk (by omega)
  by_cases hkl : k ≤ p.level
  · exact hbelow k hk hkl
  · have hact : p.isAct = false := by cases p <;> first | rfl | exact absurd hk' hkl
    have hself : ∀ q ∈ p.enclosed, q = p := by cases p <;> simp_all [enclosed, level]
    have hgroup : p.Clear 6 := clear_of_enclosed hp hact fun q hq => by
      rw [hself q hq]
      exact (hbelow 1 (Nat.le_refl 1) hpos).clear hp
    exact partsClear_below hp (m := p.level + 1) (fun j hj _ => by omega) hgroup k (by omega) hk'

/-- A tail more is read off behind what a pattern is cut into. -/
theorem PartsClear.push {a : Pattern} {t : Tail} (ha : PartsClear t.level a) (ht : t.Clear t.level)
    (hsplit : p.split t.level = ((a.split t.level).1, (a.split t.level).2 ++ [t])) : PartsClear t.level p := by
  have h4 : t.level ≠ 4 := by
    cases t with
    | operation op => cases op <;> simp [Tail.level, Operator.level]
    | action => simp [Tail.level]
  unfold PartsClear at ha ⊢
  rw [if_neg h4] at ha ⊢
  rw [hsplit]
  exact ⟨ha.1, List.forall_mem_append.2 ⟨ha.2, List.forall_mem_singleton.2 ht⟩⟩

/-- An operation that nests to the left is read off if its operands are. -/
theorem PartsClear.operation (op : Operator) {a b : Pattern} (hb : b.WellNamed)
    (ha : ∀ k, 1 ≤ k → k ≤ 5 → PartsClear k a) (hb' : ∀ k, 1 ≤ k → k ≤ 5 → PartsClear k b)
    (hsplit : p.split op.level = ((a.split op.level).1, (a.split op.level).2 ++ [.operation op b])) :
    PartsClear op.level p := by
  have hlevel : 1 ≤ op.level ∧ op.level + 1 ≤ 5 := by cases op <;> decide
  have htail : (Tail.operation op b).Clear op.level :=
    Tail.clear_operation op hb ((hb' (op.level + 1) (by omega) hlevel.2).clear hb)
  exact (ha op.level hlevel.1 (by omega)).push (t := .operation op b) htail hsplit

theorem partsClear (p : Pattern) : p.WellNamed → ∀ k, 1 ≤ k → k ≤ 5 → PartsClear k p := by
  have hatom : ∀ {p : Pattern}, p.WellNamed → p.level = 5 → p.isAct = false → (∀ q ∈ p.enclosed, q.Clear 1) →
      ∀ k, 1 ≤ k → k ≤ 5 → PartsClear k p := by
    intro p hp h5 hact h k hk hk'
    refine partsClear_of_own hp (partsClear_of_succ (.inr ⟨h5, hact⟩) ?_) hk hk'
    rw [h5]
    exact clear_of_enclosed hp hact h
  induction p with
  | empty | one | text | keyword | call => exact fun hp => hatom hp rfl rfl nofun
  | keywords a words ih =>
    intro hp
    have ha : a.WellNamed := hp.child List.mem_cons_self
    exact hatom hp rfl rfl (List.forall_mem_singleton.2 ((ih ha 1 (by decide) (by decide)).clear ha))
  | token a ih =>
    intro hp
    have ha : a.WellNamed := hp.child List.mem_cons_self
    exact hatom hp rfl rfl (List.forall_mem_singleton.2 ((ih ha 1 (by decide) (by decide)).clear ha))
  | alt a b iha ihb =>
    intro hp k
    have hb : b.WellNamed := hp.child (by simp [children])
    exact partsClear_of_own hp (.operation .alt hb (iha (hp.child (by simp [children]))) (ihb hb) rfl)
  | diff a b iha ihb =>
    intro hp k
    have hb : b.WellNamed := hp.child (by simp [children])
    exact partsClear_of_own hp (.operation .diff hb (iha (hp.child (by simp [children]))) (ihb hb) rfl)
  | seq a b iha ihb =>
    intro hp k
    have hb : b.WellNamed := hp.child (by simp [children])
    exact partsClear_of_own hp (.operation .seq hb (iha (hp.child (by simp [children]))) (ihb hb) rfl)
  | list a b iha ihb =>
    intro hp k
    have ha : a.WellNamed := hp.child (by simp [children])
    have hb : b.WellNamed := hp.child (by simp [children])
    have hhead : a.Clear 4 := (iha ha 4 (by decide) (by decide)).clear ha
    have htail : (Tail.operation .list b).Clear 3 :=
      Tail.clear_operation .list hb ((ihb hb 4 (by decide) (by decide)).clear hb)
    exact partsClear_of_own hp ⟨hhead, List.forall_mem_singleton.2 htail⟩
  | act action a ih =>
    intro hp k
    have ha : a.WellNamed := hp.child List.mem_cons_self
    have htail : (Tail.action action).Clear 5 := Tail.clear_action hp.self
    exact partsClear_of_own hp ((ih ha 5 (by decide) (by decide)).push (t := .action action) htail rfl)
  | opt a ih | many a ih | many1 a ih | expect a ih | lookahead a ih | notAhead a ih =>
    intro hp k
    have ha : a.WellNamed := hp.child List.mem_cons_self
    exact partsClear_of_own hp ((ih ha 5 (by decide) (by decide)).clear ha)

/-- Patterns with the same grammar text are the same up to the targets of their calls. -/
theorem unlink_eq_of_display {p q : Pattern} (hp : p.WellNamed) (hq : q.WellNamed) (h : p.display = q.display) :
    p.unlink = q.unlink := by
  have hclear : p.Clear 1 := (partsClear p hp 1 (by decide) (by decide)).clear hp
  have htext : ∀ a : Pattern, a.written 1 = a.display.toList := fun a => written_of_le (.inl a.level_pos)
  refine (hclear q [] [] ⟨hq, nofun⟩ (.inl rfl) (.inl rfl) ?_).1
  rw [htext, htext, h]

/-- A choice that is written the same before and after it is linked. -/
theorem unlink_eq_of_display_linked :
    (Pattern.alt (.expect (.act "A3" (.call ⟨"Cond", "Expression", 1, some 4⟩)))
      (.diff (.many (.set "^\\]a-z")) (.keywords (.call ⟨"lex.word", "lex.word", 0, some 2⟩) ["do", "if"]))).display =
        "Cond:Expression/1\x7bA3\x7d! | [^\\]a-z]* - keyword_list(lex.word, [\"do\", \"if\"])" ∧
    (Pattern.alt (.expect (.act "A3" (.call ⟨"Cond", "Expression", 1, some 4⟩)))
      (.diff (.many (.set "^\\]a-z")) (.keywords (.call ⟨"lex.word", "lex.word", 0, some 2⟩) ["do", "if"]))).unlink =
    (Pattern.alt (.expect (.act "A3" (.callAs "Cond" "Expression" 1)))
      (.diff (.many (.set "^\\]a-z")) (.keywords (.rule "lex.word") ["do", "if"]))).unlink :=
  ⟨by decide, unlink_eq_of_display (by decide) (by decide) (by decide)⟩

end Pattern

end PegFront
