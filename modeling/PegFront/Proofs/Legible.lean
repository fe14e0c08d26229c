import Mathlib.Data.List.Basic
import PegFront.Text.Quoted

/-!
# Legible texts

What is written is legible if its text stands for nothing else: in front of what may follow, only things that are
alike have the same text. It is shown here for what the texts of trees are made of, which is runs of chars, items one
after the other, and escaped chars.
-/

namespace PegFront

/-- Whatever else has the same text as `a`, with anything after it that may follow, looks like `a`. -/
def Legible {α β : Type} (write : α → List Char) (proper : α → Prop) (follows : List Char → Prop) (view : α → β)
    (a : α) : Prop :=
  ∀ b s t, proper b → follows s → follows t → write a ++ s = write b ++ t → view a = view b ∧ s = t

/-! ## Runs -/

section
variable {p : Char → Bool} {x y s t : List Char}

/-- A run is cut off where it ends. -/
theorem takeWhile_run (hx : ∀ d ∈ x, p d = true) (ht : ∀ d ∈ t.head?, p d = false) :
    (x ++ t).takeWhile p = x ∧ (x ++ t).dropWhile p = t := by
  have hend : t.takeWhile p = [] ∧ t.dropWhile p = t := by
    cases t with
    | nil => exact ⟨rfl, rfl⟩
    | cons d t => simp [ht d rfl]
  rw [List.takeWhile_append_of_pos hx, List.dropWhile_append_of_pos hx, hend.1, hend.2, List.append_nil]
  exact ⟨rfl, rfl⟩

theorem run_unique (hx : ∀ c ∈ x, p c = true) (hy : ∀ c ∈ y, p c = true) (hs : ∀ c ∈ s.head?, p c = false)
    (ht : ∀ c ∈ t.head?, p c = false) (h : x ++ s = y ++ t) : x = y ∧ s = t := by
  obtain ⟨htake, hdrop⟩ := takeWhile_run hx hs
  obtain ⟨htake', hdrop'⟩ := takeWhile_run hy ht
  rw [h] at htake hdrop
  exact ⟨htake.symm.trans htake', hdrop.symm.trans hdrop'⟩

/-- A run with a char behind it that ends it. -/
theorem run_cons_unique {d : Char} (hx : ∀ c ∈ x, p c = true) (hy : ∀ c ∈ y, p c = true) (hd : p d = false)
    (h : x ++ d :: s = y ++ d :: t) : x = y ∧ s = t := by
  have hend : ∀ u : List Char, ∀ c ∈ (d :: u).head?, p c = false := fun u c hc => Option.some.inj hc ▸ hd
  obtain ⟨hxy, hst⟩ := run_unique hx hy (hend s) (hend t) h
  exact ⟨hxy, (List.cons.inj hst).2⟩

end

/-! ## Items one after the other -/

section
variable {α β : Type} {proper : α → Prop} {between follows : List Char → Prop} {view : α → β} {as : List α}

theorem between_flatMap {item : α → List Char} (hlast : ∀ s, follows s → between s)
    (hnext : ∀ b s, proper b → between (item b ++ s)) (has : ∀ a ∈ as, proper a) {s : List Char} (hs : follows s) :
    between (as.flatMap item ++ s) := by
  cases as with
  | nil => exact hlast s hs
  | cons a as =>
    rw [List.flatMap_cons, List.append_assoc]
    exact hnext a _ (has a List.mem_cons_self)

/-- Items are legible one after the other if each is, before the end as well as before another item, and no item
begins like what follows the last one. -/
theorem Legible.flatMap {item : α → List Char} (hlast : ∀ s, follows s → between s)
    (hnext : ∀ b s, proper b → between (item b ++ s)) (hstop : ∀ b s, proper b → ¬ follows (item b ++ s))
    (hproper : ∀ a ∈ as, proper a) (h : ∀ a ∈ as, Legible item proper between view a) :
    Legible (List.flatMap item) (fun bs => ∀ b ∈ bs, proper b) follows (List.map view) as := by
  induction as with
  | nil =>
    intro bs s t hbs hs ht heq
    cases bs with
    | nil => exact ⟨rfl, heq⟩
    | cons b bs =>
      rw [List.flatMap_nil, List.nil_append, List.flatMap_cons, List.append_assoc] at heq
      exact absurd (heq ▸ hs) (hstop b _ (hbs b List.mem_cons_self))
  | cons a as ih =>
    intro bs s t hbs hs ht heq
    rw [List.flatMap_cons, List.append_assoc] at heq
    rw [List.forall_mem_cons] at hproper h
    cases bs with
    | nil =>
      rw [List.flatMap_nil, List.nil_append] at heq
      exact absurd (heq ▸ ht) (hstop a _ hproper.1)
    | cons b bs =>
      rw [List.forall_mem_cons] at hbs
      rw [List.flatMap_cons, List.append_assoc] at heq
      obtain ⟨hview, heq⟩ := h.1 b _ _ hbs.1 (between_flatMap hlast hnext hproper.2 hs)
        (between_flatMap hlast hnext hbs.2 ht) heq
      obtain ⟨hviews, heq⟩ := ih hproper.2 h.2 bs s t hbs.2 hs ht heq
      exact ⟨congrArg₂ List.cons hview hviews, heq⟩

theorem intercalate_cons (separator : String) (item : α → String) (a : α) (as : List α) :
    (separator.intercalate ((a :: as).map item)).toList =
      (item a).toList ++ as.flatMap fun b => separator.toList ++ (item b).toList := by
  induction as generalizing a with
  | nil => simp
  | cons b as ih =>
    rw [List.map_cons, List.map_cons, String.intercalate_cons_cons, String.toList_append, String.toList_append,
      ← List.map_cons, ih, List.flatMap_cons, List.append_assoc, List.append_assoc]

/-- The same with a separator between items, if neither it nor an item begins like what follows the last one. -/
theorem Legible.intercalate {separator : String} {item : α → String} (hlast : ∀ s, follows s → between s)
    (hnext : ∀ s, between (separator.toList ++ s)) (hstop : ∀ s, ¬ follows (separator.toList ++ s))
    (hstart : ∀ b s, proper b → ¬ follows ((item b).toList ++ s)) (hproper : ∀ a ∈ as, proper a)
    (h : ∀ a ∈ as, Legible (fun b => (item b).toList) proper between view a) :
    Legible (fun bs => (separator.intercalate (bs.map item)).toList) (fun bs => ∀ b ∈ bs, proper b) follows
      (List.map view) as := by
  intro bs s t hbs hs ht heq
  beta_reduce at heq
  cases as with
  | nil =>
    cases bs with
    | nil => exact ⟨rfl, heq⟩
    | cons b bs =>
      rw [intercalate_cons, List.append_assoc] at heq
      have heq : s = _ := heq
      exact absurd (heq ▸ hs) (hstart b _ (hbs b List.mem_cons_self))
  | cons a as =>
    rw [intercalate_cons, List.append_assoc] at heq
    rw [List.forall_mem_cons] at hproper h
    cases bs with
    | nil =>
      have heq : _ = t := heq
      exact absurd (heq ▸ ht) (hstart a _ hproper.1)
    | cons b bs =>
      rw [List.forall_mem_cons] at hbs
      rw [intercalate_cons, List.append_assoc] at heq
      have hnext' : ∀ c s, proper c → between (separator.toList ++ (item c).toList ++ s) := fun c s _ =>
        List.append_assoc .. ▸ hnext _
      obtain ⟨hview, heq⟩ := h.1 b _ _ hbs.1 (between_flatMap hlast hnext' hproper.2 hs)
        (between_flatMap hlast hnext' hbs.2 ht) heq
      have hrest : Legible (List.flatMap fun c => separator.toList ++ (item c).toList) (fun cs => ∀ c ∈ cs, proper c)
          follows (List.map view) as := by
        refine .flatMap hlast hnext' (fun c u _ => ?_) hproper.2 fun c hc d u v hd hu hv huv => ?_
        · exact List.append_assoc .. ▸ hstop _
        · rw [List.append_assoc, List.append_assoc] at huv
          exact h.2 c hc d u v hd hu hv (List.append_cancel_left huv)
      obtain ⟨hviews, heq⟩ := hrest bs s t hbs.2 hs ht heq
      exact ⟨congrArg₂ List.cons hview hviews, heq⟩

end

/-! ## Escaped chars -/

namespace Text

theorem digitChar_injective : ∀ m < 16, ∀ n < 16, m.digitChar = n.digitChar → m = n := by decide

theorem isHexDigit_digitChar : ∀ d < 16, isHexDigit d.digitChar = true := by decide

theorem hexDigits_of_lt {n : Nat} (h : n < 16) : hexDigits n = [n.digitChar] := Nat.toDigits_of_lt_base h

theorem hexDigits_of_le {n : Nat} (h : 16 ≤ n) : hexDigits n = hexDigits (n / 16) ++ [(n % 16).digitChar] :=
  Nat.toDigits_of_base_le (by decide) h

theorem toDigits_ne_nil {base : Nat} (hbase : 1 < base) (n : Nat) : base.toDigits n ≠ [] := by
  rw [Nat.toDigits_eq_if hbase]
  split <;> simp

theorem isHexDigit_hexDigits (n : Nat) : ∀ c ∈ hexDigits n, isHexDigit c = true := by
  induction n using Nat.strongRecOn with
  | ind n ih =>
    intro c hc
    by_cases hn : n < 16
    · rw [hexDigits_of_lt hn] at hc
      exact List.mem_singleton.1 hc ▸ isHexDigit_digitChar n hn
    · rw [hexDigits_of_le (by omega)] at hc
      rcases List.mem_append.1 hc with hc | hc
      · exact ih (n / 16) (by omega) c hc
      · exact List.mem_singleton.1 hc ▸ isHexDigit_digitChar _ (by omega)

theorem hexDigits_injective {m n : Nat} (h : hexDigits m = hexDigits n) : m = n := by
  induction m using Nat.strongRecOn generalizing n with
  | ind m ih =>
    have hlong : ∀ k d, [] ++ [d] ≠ hexDigits (k / 16) ++ [(k % 16).digitChar] := fun k d hd =>
      toDigits_ne_nil (by decide) _ (List.append_inj' hd rfl).1.symm
    by_cases hm : m < 16 <;> by_cases hn : n < 16
    · rw [hexDigits_of_lt hm, hexDigits_of_lt hn] at h
      exact digitChar_injective m hm n hn (List.cons.inj h).1
    · rw [hexDigits_of_lt hm, hexDigits_of_le (by omega)] at h
      exact absurd h (hlong n _)
    · rw [hexDigits_of_le (by omega), hexDigits_of_lt hn] at h
      exact absurd h.symm (hlong m _)
    · rw [hexDigits_of_le (by omega), hexDigits_of_le (n := n) (by omega)] at h
      obtain ⟨hhigh, hlow⟩ := List.append_inj' h rfl
      have hdiv := ih (m / 16) (by omega) hhigh
      have hmod := digitChar_injective _ (Nat.mod_lt m (by decide)) _ (Nat.mod_lt n (by decide)) (List.cons.inj hlow).1
      omega

/-- The char that a letter after a backslash stands for. -/
def named : Char → Char
  | 't' => '\t'
  | 'r' => '\r'
  | 'n' => '\n'
  | '0' => '\x00'
  | x => x

/-- How a char stands in an escaped text between two delimiters. -/
inductive Escaped (delimiter c : Char) : List Char → Prop
  | short {x : Char} (hx : x ≠ 'u') (h : named x = c) : Escaped delimiter c ['\\', x]
  | plain (h : c ≠ '\\') (hd : c ≠ delimiter) : Escaped delimiter c [c]
  | codePoint : Escaped delimiter c (escapeCodePoint c)

theorem escapeCodePoint_append (c : Char) (s : List Char) :
    escapeCodePoint c ++ s = '\\' :: 'u' :: '\x7b' :: (hexDigits c.toNat ++ '\x7d' :: s) := by
  simp only [escapeCodePoint, List.append_assoc, List.singleton_append]
  rfl

namespace Escaped
variable {delimiter c d : Char} {x y s t : List Char}

/-- An escaped char is read off whatever follows it. -/
theorem unique (hx : Escaped delimiter c x) (hy : Escaped delimiter d y) (h : x ++ s = y ++ t) : c = d ∧ s = t := by
  cases hx with
  | short hu hc =>
    cases hy with
    | short _ hd =>
      obtain ⟨rfl, hst⟩ := List.cons.inj (List.cons.inj h).2
      exact ⟨hc.symm.trans hd, hst⟩
    | plain hd => exact absurd (List.cons.inj h).1.symm hd
    | codePoint =>
      rw [escapeCodePoint_append] at h
      exact absurd (List.cons.inj (List.cons.inj h).2).1 hu
  | plain hc =>
    cases hy with
    | short => exact absurd (List.cons.inj h).1 hc
    | plain => exact List.cons.inj h
    | codePoint =>
      rw [escapeCodePoint_append] at h
      exact absurd (List.cons.inj h).1 hc
  | codePoint =>
    rw [escapeCodePoint_append] at h
    cases hy with
    | short hu => exact absurd (List.cons.inj (List.cons.inj h).2).1.symm hu
    | plain hd => exact absurd (List.cons.inj h).1.symm hd
    | codePoint =>
      rw [escapeCodePoint_append] at h
      obtain ⟨hcode, hst⟩ := run_cons_unique (isHexDigit_hexDigits _) (isHexDigit_hexDigits _) (by decide)
        (List.cons.inj (List.cons.inj (List.cons.inj h).2).2).2
      exact ⟨Char.toNat_inj.1 (hexDigits_injective hcode), hst⟩

theorem head?_ne (hdelimiter : delimiter ≠ '\\') (hx : Escaped delimiter c x) : (x ++ s).head? ≠ some delimiter := by
  cases hx with
  | plain _ hd => exact fun h => hd (Option.some.inj h)
  | short | codePoint => exact fun h => hdelimiter (Option.some.inj h).symm

/-- An escaped text is read off what follows its delimiter. -/
theorem flatMap_unique {write : Char → List Char} (hdelimiter : delimiter ≠ '\\')
    (hwrite : ∀ c, Escaped delimiter c (write c))
    (h : x.flatMap write ++ delimiter :: s = y.flatMap write ++ delimiter :: t) : x = y ∧ s = t := by
  have hlegible := @Legible.flatMap Char Char (fun _ => True) (fun _ => True) (·.head? = some delimiter) id x write
    (fun _ _ => trivial) (fun _ _ _ => trivial) (fun c _ _ => (hwrite c).head?_ne hdelimiter) (fun _ _ => trivial)
    fun c _ d _ _ _ _ _ heq => (hwrite c).unique (hwrite d) heq
  obtain ⟨hview, hrest⟩ := hlegible y _ _ (fun _ _ => trivial) rfl rfl h
  rw [List.map_id, List.map_id] at hview
  exact ⟨hview, (List.cons.inj hrest).2⟩

end Escaped

theorem escaped_quotedChar {delimiter : Char} (hu : delimiter ≠ 'u') (hd : named delimiter = delimiter) (c : Char) :
    Escaped delimiter c (quotedChar delimiter c) := by
  unfold quotedChar
  split_ifs with ht hr hn hb h0 hq hp
  · exact .short (by decide) (eq_of_beq ht).symm
  · exact .short (by decide) (eq_of_beq hr).symm
  · exact .short (by decide) (eq_of_beq hn).symm
  · exact .short (by decide) (eq_of_beq hb).symm
  · exact .short (by decide) (eq_of_beq h0).symm
  · obtain rfl := eq_of_beq hq
    exact .short hu hd
  · exact .plain (fun h => hb (beq_iff_eq.2 h)) fun h => hq (beq_iff_eq.2 h)
  · exact .codePoint

/-- A quoted text is read off whatever follows it. -/
theorem quoteWith_unique {delimiter : Char} (hu : delimiter ≠ 'u') (hb : delimiter ≠ '\\')
    (hd : named delimiter = delimiter) {x y s t : List Char}
    (h : (quoteWith delimiter x).toList ++ s = (quoteWith delimiter y).toList ++ t) : x = y ∧ s = t := by
  simp only [quoteWith, String.toList_ofList, List.append_assoc, List.cons_append, List.nil_append] at h
  exact Escaped.flatMap_unique hb (escaped_quotedChar hu hd) (List.cons.inj h).2

theorem escaped_escapedChar {delimiter : Char} (hd : delimiter = '\'' ∨ delimiter = '"') (c : Char) :
    Escaped delimiter c (escapedChar c) := by
  unfold escapedChar
  split_ifs with ht hr hn hq hp
  · exact .short (by decide) (eq_of_beq ht).symm
  · exact .short (by decide) (eq_of_beq hr).symm
  · exact .short (by decide) (eq_of_beq hn).symm
  · simp only [Bool.or_eq_true, beq_iff_eq] at hq
    rcases hq with (rfl | rfl) | rfl <;> exact .short (by decide) rfl
  · simp only [Bool.or_eq_true, beq_iff_eq, not_or] at hq
    refine .plain hq.1.1 ?_
    rcases hd with rfl | rfl
    · exact hq.1.2
    · exact hq.2
  · exact .codePoint

end Text

end PegFront
