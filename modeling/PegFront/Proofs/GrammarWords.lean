import PegFront.Peg.Printer
import PegFront.Proofs.CharSets
import PegFront.Proofs.Legible

/-!
# Words and classes in grammar text

The terminals and calls in grammar text are words, and a class is a text in brackets. A word that calls a rule shows
which one, with its label and arity, as long as names are made of the chars of names and none is the word of a
terminal. A class ends at its first bracket that no backslash escapes.
-/

namespace PegFront

/-- A char that the name of a rule is made of. -/
def isNameChar (c : Char) : Bool := Text.isWordChar c || c == '.'

/-- The words that stand for terminals. -/
def builtinWords : List String :=
  ["empty", "anychar", "space", "letter", "digit", "hexdigit", "punctuation", "idstart", "idcont"]

def isRuleName (name : String) : Bool :=
  !name.isEmpty && name.toList.all isNameChar && !builtinWords.contains name

/-- An action or a keyword, as it is written. -/
def isPlainWord (word : String) : Bool := !word.isEmpty && word.toList.all Text.isWordChar

/-- A plain word is read off up to a char that no word goes on with. -/
theorem plainWord_unique {word word' : String} (h : isPlainWord word = true) (h' : isPlainWord word' = true) {d : Char}
    (hd : Text.isWordChar d = false) {s s' : List Char} (heq : word.toList ++ d :: s = word'.toList ++ d :: s') :
    word = word' ∧ s = s' := by
  obtain ⟨hword, hrest⟩ := run_cons_unique (List.all_eq_true.1 (Bool.and_eq_true_iff.1 h).2)
    (List.all_eq_true.1 (Bool.and_eq_true_iff.1 h').2) hd heq
  exact ⟨String.toList_inj.1 hword, hrest⟩

/-! ## Calls -/

namespace Call

/-- The call before it was linked. -/
def unlink (c : Call) : Call := { c with target := none }

def isWellNamed (c : Call) : Bool := c.label.toList.all isNameChar && isRuleName c.rule

/-- A char in the text of a call. -/
def isTextChar (c : Char) : Bool := isNameChar c || c.isDigit || c == ':' || c == '/'

/-- What is written behind the name of the rule. -/
def arityText (c : Call) : List Char := if c.arity ≠ 0 then '/' :: Nat.toDigits 10 c.arity else []

variable {c c' : Call}

theorem toList_write (c : Call) : (c.write true).toList =
    (if c.label ≠ c.rule then c.label.toList ++ [':'] else []) ++ (c.rule.toList ++ c.arityText) := by
  simp only [write, Bool.true_and, bne_iff_ne, arityText, String.toList_append, List.append_assoc]
  split_ifs <;> simp

theorem names_of_wellNamed (h : c.isWellNamed = true) : (∀ d ∈ c.label.toList, isNameChar d = true) ∧
    c.rule ≠ "" ∧ (∀ d ∈ c.rule.toList, isNameChar d = true) ∧ c.rule ∉ builtinWords := by
  simpa [isWellNamed, isRuleName, and_assoc] using h

theorem arityText_apart (c : Call) : ∀ d ∈ c.arityText.head?, d = '/' := by
  unfold arityText
  split_ifs
  · exact fun d hd => (Option.some.inj hd).symm
  · exact nofun

theorem arity_eq (h : c.arityText = c'.arityText) : c.arity = c'.arity := by
  unfold arityText at h
  split_ifs at h with hc hc'
  · rw [← Nat.ofDigitChars_ten_toDigits (n := c.arity), (List.cons.inj h).2, Nat.ofDigitChars_ten_toDigits]
  · omega

/-- The text of a call shows all of it but the target. -/
theorem unlink_eq_of_write (h : c.isWellNamed = true) (h' : c'.isWellNamed = true)
    (heq : (c.write true).toList = (c'.write true).toList) : c.unlink = c'.unlink := by
  obtain ⟨hlabel, -, hrule, -⟩ := names_of_wellNamed h
  obtain ⟨hlabel', -, hrule', -⟩ := names_of_wellNamed h'
  have hcolon : ∀ u : List Char, ∀ d ∈ (':' :: u).head?, isNameChar d = false := fun u d hd =>
    Option.some.inj hd ▸ by decide
  have harity : ∀ a : Call, ∀ d ∈ a.arityText.head?, isNameChar d = false := fun a d hd =>
    arityText_apart a d hd ▸ by decide
  have hnone : ∀ (a : Call) (u : List Char), ':' :: u ≠ a.arityText := fun a u hu =>
    absurd (arityText_apart a ':' (hu ▸ rfl)) (by decide)
  have hsame : ∀ {x y : String}, x.toList ++ c.arityText = y.toList ++ c'.arityText → x = c.rule → y = c'.rule →
      c.rule = c'.rule ∧ c.arity = c'.arity := by
    rintro x y hxy rfl rfl
    obtain ⟨hname, hrest⟩ := run_unique hrule hrule' (harity c) (harity c') hxy
    exact ⟨String.toList_inj.1 hname, arity_eq hrest⟩
  rw [toList_write, toList_write] at heq
  split_ifs at heq with hc hc' hc'
  · rw [List.append_assoc, List.append_assoc] at heq
    obtain ⟨hname, hrest⟩ := run_unique hlabel hlabel' (hcolon _) (hcolon _) heq
    obtain ⟨hr, ha⟩ := hsame (List.cons.inj hrest).2 rfl rfl
    simp only [unlink, String.toList_inj.1 hname, hr, ha]
  · rw [List.append_assoc, List.nil_append] at heq
    exact absurd (run_unique hlabel hrule' (hcolon _) (harity c') heq).2 (hnone c' _)
  · rw [List.append_assoc, List.nil_append] at heq
    exact absurd (run_unique hrule hlabel' (harity c) (hcolon _) heq).2.symm (hnone c _)
  · obtain ⟨hr, ha⟩ := hsame heq rfl rfl
    simp only [unlink, not_not.1 hc, not_not.1 hc', hr, ha]

theorem write_ne_builtin (h : c.isWellNamed = true) {word : String} (hword : word ∈ builtinWords) :
    (c.write true).toList ≠ word.toList := by
  intro heq
  obtain ⟨hlabel, -, hrule, hnot⟩ := names_of_wellNamed h
  have hplain : ∀ w ∈ builtinWords, ':' ∉ w.toList ∧ '/' ∉ w.toList := by decide
  rw [toList_write] at heq
  have hunlabelled : c.label = c.rule := by
    by_contra hne
    exact (hplain word hword).1 (heq ▸ by simp [hne])
  have hnullary : c.arityText = [] := by
    by_contra hne
    obtain ⟨d, x, hx⟩ := List.exists_cons_of_ne_nil hne
    obtain rfl := arityText_apart c d (by rw [hx]; rfl)
    exact (hplain word hword).2 (heq ▸ by simp [hx])
  rw [hnullary, if_neg (by simpa using hunlabelled), List.nil_append, List.append_nil] at heq
  exact hnot (String.toList_inj.1 heq ▸ hword)

theorem isTextChar_write (h : c.isWellNamed = true) : ∀ d ∈ (c.write true).toList, isTextChar d = true := by
  obtain ⟨hlabel, -, hrule, -⟩ := names_of_wellNamed h
  have hname : ∀ {x : List Char}, (∀ d ∈ x, isNameChar d = true) → ∀ d ∈ x, isTextChar d = true :=
    fun hx d hd => by simp [isTextChar, hx d hd]
  have harity : ∀ d ∈ c.arityText, isTextChar d = true := by
    unfold arityText
    split_ifs
    · refine List.forall_mem_cons.2 ⟨by decide, fun d hd => ?_⟩
      have hdigit := Nat.isDigit_of_mem_toDigits (by decide) (by decide) hd
      simp [isTextChar, hdigit]
    · exact nofun
  rw [toList_write, List.forall_mem_append, List.forall_mem_append]
  refine ⟨?_, hname hrule, harity⟩
  split_ifs
  · exact List.forall_mem_append.2 ⟨hname hlabel, List.forall_mem_singleton.2 (by decide)⟩
  · exact nofun

theorem write_ne_nil (h : c.isWellNamed = true) : (c.write true).toList ≠ [] := by
  obtain ⟨-, hne, -, -⟩ := names_of_wellNamed h
  rw [toList_write]
  simp [hne]

end Call

/-! ## Classes -/

namespace CharSet

/-- Every closing bracket of a class text is escaped. -/
def bracketsEscaped : List Char → Bool
  | '\\' :: _ :: cs => bracketsEscaped cs
  | c :: cs => c != ']' && bracketsEscaped cs
  | [] => true

/-- A class as it can be written: from a text that is no fault and has its brackets escaped. -/
def isWritable (set : CharSet) : Bool :=
  set == .ofText set.text && set.invalid.isNone && bracketsEscaped set.text.toList

/-- A row of escapes and of chars that are no closing bracket. -/
inductive Enclosed : List Char → Prop
  | nil : Enclosed []
  | plain {c : Char} {x : List Char} (slash : c ≠ '\\') (bracket : c ≠ ']') (h : Enclosed x) : Enclosed (c :: x)
  | escaped {e : Char} {x : List Char} (h : Enclosed x) : Enclosed ('\\' :: e :: x)

theorem Enclosed.unique {x y s t : List Char} (hx : Enclosed x) (hy : Enclosed y) (h : x ++ ']' :: s = y ++ ']' :: t) :
    x = y ∧ s = t := by
  induction hx generalizing y with
  | nil =>
    cases hy with
    | nil => exact ⟨rfl, (List.cons.inj h).2⟩
    | plain _ hb => exact absurd (List.cons.inj h).1.symm hb
    | escaped => exact absurd (List.cons.inj h).1 (by decide)
  | plain hs hb _ ih =>
    cases hy with
    | nil => exact absurd (List.cons.inj h).1 hb
    | plain _ _ hy =>
      obtain ⟨rfl, hrest⟩ := List.cons.inj h
      obtain ⟨rfl, hst⟩ := ih hy hrest
      exact ⟨rfl, hst⟩
    | escaped => exact absurd (List.cons.inj h).1 hs
  | escaped _ ih =>
    cases hy with
    | nil => exact absurd (List.cons.inj h).1 (by decide)
    | plain hs => exact absurd (List.cons.inj h).1.symm hs
    | escaped hy =>
      obtain ⟨rfl, hrest⟩ := List.cons.inj (List.cons.inj h).2
      obtain ⟨rfl, hst⟩ := ih hy hrest
      exact ⟨rfl, hst⟩

theorem bracketsEscaped_cons {c : Char} {cs : List Char} (hc : c ≠ '\\') :
    bracketsEscaped (c :: cs) = true ↔ c ≠ ']' ∧ bracketsEscaped cs = true := by
  rw [bracketsEscaped, Bool.and_eq_true, bne_iff_ne]
  exact fun _ _ h => absurd h hc

/-- A text that is scanned to its end holds no backslash without a char behind it. -/
theorem enclosed_of_scan {cs p : List Char} {r : List (Char × Char)} (hb : bracketsEscaped cs = true)
    (valid : (scan cs p r).2 = none) : Enclosed cs := by
  fun_induction scan cs p r with
  | case1 => exact .nil
  | case2 | case4 | case5 | case6 | case7 | case9 => cases valid
  | case3 p r e rest c known ih => exact .escaped (ih hb valid)
  | case8 r low below e rest high known ordered ih =>
    have hrest := ((bracketsEscaped_cons (by decide)).1 hb).2
    exact .plain (by decide) (by decide) (.escaped (ih hrest valid))
  | case10 r low below high rest single escape ordered ih =>
    have slash : high ≠ '\\' := by
      rintro rfl
      cases rest with
      | nil => exact single rfl rfl
      | cons e rest => exact escape e rest rfl rfl
    obtain ⟨bracket, hrest⟩ := (bracketsEscaped_cons slash).1 ((bracketsEscaped_cons (by decide)).1 hb).2
    exact .plain (by decide) (by decide) (.plain slash bracket (ih hrest valid))
  | case11 p r rest _ _ _ ih =>
    exact .plain (by decide) (by decide) (ih ((bracketsEscaped_cons (by decide)).1 hb).2 valid)
  | case12 c rest p r slash hyphen ih =>
    obtain ⟨bracket, hrest⟩ := (bracketsEscaped_cons slash).1 hb
    exact .plain slash bracket (ih hrest valid)

theorem enclosed_of_writable {set : CharSet} (h : set.isWritable = true) : Enclosed set.text.toList := by
  simp only [isWritable, Bool.and_eq_true, beq_iff_eq, Option.isNone_iff_eq_none] at h
  obtain ⟨⟨hset, hvalid⟩, hb⟩ := h
  rw [hset] at hvalid
  generalize set.text = text at hvalid hb
  simp only [ofText, Option.map_eq_none_iff] at hvalid
  split at hvalid
  · next rest htext =>
    rw [htext] at hb ⊢
    exact .plain (by decide) (by decide) (enclosed_of_scan ((bracketsEscaped_cons (by decide)).1 hb).2 hvalid)
  · exact enclosed_of_scan hb hvalid

theorem eq_of_text {set set' : CharSet} (h : set.isWritable = true) (h' : set'.isWritable = true)
    (htext : set.text = set'.text) : set = set' := by
  simp only [isWritable, Bool.and_eq_true, beq_iff_eq] at h h'
  rw [h.1.1, h'.1.1, htext]

end CharSet

end PegFront
