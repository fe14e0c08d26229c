import Mathlib.Data.List.Induction
import Mathlib.Data.Nat.Digits.Defs
import PegFront.Proofs.Cminor.Rendering

/-!
# Values of runs of digits

`numeral` goes through a run of digits from the left. What it comes to is the value of the run in positional notation
(`numeral_eq`), in which every digit counts by its place. So the length of a run has no say of its own, and neither have
zeros in front.
-/

namespace PegFront.Cminor

/-- Worth of a digit, in either case of a letter. -/
def digitOf (ch : Char) : Nat := "0123456789abcdef".toList.idxOf ch.toLower

/-- Value of a run of digits in positional notation. -/
def valueIn (base : Nat) (x : List Char) : Nat := Nat.ofDigits base (x.reverse.map digitOf)

section
variable {ch : Char} {base n : Nat} {x : List Char}

theorem isHexDigit_of_digit (h : ch.isDigit = true) : Text.isHexDigit ch = true := by simp [Text.isHexDigit, h]

theorem isDigit_of_octalDigit (h : Text.isOctalDigit ch = true) : ch.isDigit = true := by
  simp only [Text.isOctalDigit, Char.isDigit, Bool.and_eq_true, decide_eq_true_eq] at h ⊢
  exact ⟨h.1, Nat.le_trans (m := 55) h.2 (by decide)⟩

theorem digitValue_eq (h : Text.isHexDigit ch = true) : digitValue ch = digitOf ch := by
  have hsmall : ch.toNat < 103 := by
    simp only [Text.isHexDigit, Char.isDigit, Bool.or_eq_true, Bool.and_eq_true, decide_eq_true_eq] at h
    obtain (⟨-, hle⟩ | ⟨-, hle⟩) | ⟨-, hle⟩ := h <;> exact Nat.lt_of_le_of_lt hle (by decide)
  have hall : ∀ n < 103, Text.isHexDigit (Char.ofNat n) = true → digitValue (Char.ofNat n) = digitOf (Char.ofNat n) := by
    decide
  rw [← Char.ofNat_toNat ch] at h ⊢
  exact hall _ hsmall h

theorem valueIn_append_digit (base : Nat) (x : List Char) (ch : Char) :
    valueIn base (x ++ [ch]) = valueIn base x * base + digitOf ch := by
  rw [valueIn, List.reverse_append, List.reverse_singleton, List.singleton_append, List.map_cons, Nat.ofDigits_cons,
    valueIn, Nat.mul_comm, Nat.add_comm]

theorem numeral_eq (h : ∀ ch ∈ x, Text.isHexDigit ch = true) : numeral base x = valueIn base x := by
  induction x using List.reverseRecOn with
  | nil => rfl
  | append_singleton x ch ih =>
    obtain ⟨hx, hch⟩ := List.forall_mem_append.1 h
    rw [numeral_append, valueIn_append_digit, ih hx, digitValue_eq (hch ch List.mem_cons_self)]

/-- Zeros in front count nothing. -/
theorem valueIn_zeros (base k : Nat) (x : List Char) : valueIn base (List.replicate k '0' ++ x) = valueIn base x := by
  rw [valueIn, List.reverse_append, List.map_append, List.reverse_replicate, List.map_replicate]
  exact Nat.ofDigits_append_replicate_zero _

/-- A number names the char it is the code point of. -/
theorem scalar?_eq_some_iff : scalar? n = some ch ↔ ch.toNat = n := by
  constructor
  · intro h
    unfold scalar? at h
    split at h
    · next hn =>
      have hvalid : n.isValidChar := by
        simp only [Bool.or_eq_true, Bool.and_eq_true, decide_eq_true_eq] at hn
        exact hn.imp_right fun ⟨hlow, hhigh⟩ => ⟨hlow, Nat.lt_succ_of_le hhigh⟩
      cases h
      rw [Char.ofNat, dif_pos hvalid]
      rfl
    · cases h
  · rintro rfl
    exact scalar?_toNat ch

/-- A run of digits names the char its value is the code point of. -/
theorem numericEscape?_eq_some_iff (hne : x ≠ []) (h : ∀ ch ∈ x, Text.isHexDigit ch = true) :
    numericEscape? base x = some ch ↔ ch.toNat = valueIn base x := by
  rw [numericEscape?, if_neg (by simpa using hne), scalar?_eq_some_iff, numeral_eq h]

end

end PegFront.Cminor
