/-!
# Texts measured in bytes

A text is a list of chars, and an offset into it counts the bytes of its UTF-8 form. Cutting a text
at an offset succeeds only on a char boundary: `slice? cs a b` is the text between two boundaries.
-/

namespace PegFront.Text

/-- Bytes of the UTF-8 form of a text. -/
def byteLength : List Char → Nat
  | [] => 0
  | c :: cs => c.utf8Size + byteLength cs

/-- What is left of a text after its first `n` bytes, if these end on a char boundary. -/
def dropBytes? : Nat → List Char → Option (List Char)
  | 0, cs => some cs
  | _ + 1, [] => none
  | n + 1, c :: cs => if c.utf8Size ≤ n + 1 then dropBytes? (n + 1 - c.utf8Size) cs else none

/-- The first `n` bytes of a text, if they end on a char boundary. -/
def takeBytes? : Nat → List Char → Option (List Char)
  | 0, _ => some []
  | _ + 1, [] => none
  | n + 1, c :: cs =>
    if c.utf8Size ≤ n + 1 then (takeBytes? (n + 1 - c.utf8Size) cs).map (c :: ·) else none

/-- The text between two offsets, if both are char boundaries in order. -/
def slice? (cs : List Char) (start stop : Nat) : Option (List Char) :=
  if start ≤ stop then (dropBytes? start cs).bind (takeBytes? (stop - start)) else none

theorem byteLength_append (as bs : List Char) :
    byteLength (as ++ bs) = byteLength as + byteLength bs := by
  induction as with
  | nil => simp [byteLength]
  | cons a as ih => simp [byteLength, ih, Nat.add_assoc]

theorem dropBytes?_zero (cs : List Char) : dropBytes? 0 cs = some cs := by cases cs <;> rfl

theorem takeBytes?_zero (cs : List Char) : takeBytes? 0 cs = some [] := by cases cs <;> rfl

theorem dropBytes?_byteLength_append (as bs : List Char) :
    dropBytes? (byteLength as) (as ++ bs) = some bs := by
  induction as with
  | nil => exact dropBytes?_zero bs
  | cons a as ih =>
    obtain ⟨n, hn⟩ := Nat.exists_eq_succ_of_ne_zero (Nat.ne_of_gt a.utf8Size_pos)
    have h : byteLength (a :: as) = (n + byteLength as) + 1 := by simp [byteLength, hn]; omega
    rw [h, List.cons_append, dropBytes?, if_pos (by omega)]
    rw [show n + byteLength as + 1 - a.utf8Size = byteLength as by omega, ih]

theorem takeBytes?_byteLength_append (as bs : List Char) :
    takeBytes? (byteLength as) (as ++ bs) = some as := by
  induction as with
  | nil => exact takeBytes?_zero bs
  | cons a as ih =>
    obtain ⟨n, hn⟩ := Nat.exists_eq_succ_of_ne_zero (Nat.ne_of_gt a.utf8Size_pos)
    have h : byteLength (a :: as) = (n + byteLength as) + 1 := by simp [byteLength, hn]; omega
    rw [h, List.cons_append, takeBytes?, if_pos (by omega)]
    rw [show n + byteLength as + 1 - a.utf8Size = byteLength as by omega, ih]; rfl

end PegFront.Text
