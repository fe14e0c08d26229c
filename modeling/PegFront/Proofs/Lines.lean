import Mathlib.Data.List.DropRight
import PegFront.Proofs.Place

/-!
# Lines and columns of places

At a place of a source the line and the column are read off the text before it: the line is one more than
the newlines in it, the column one more than the chars after the last of them.
-/

namespace PegFront

namespace Source

/-- Line and column of the place right after a text. -/
def positionAfter (before : List Char) : Position :=
  ⟨before.count '\n' + 1, (before.rtakeWhile (· ≠ '\n')).length + 1⟩

theorem lineStartsFrom_append (offset : Nat) (before after : List Char) :
    lineStartsFrom offset (before ++ after) =
      lineStartsFrom offset before ++ lineStartsFrom (offset + Text.byteLength before) after := by
  induction before generalizing offset with
  | nil => rfl
  | cons c before ih =>
    simp only [List.cons_append, lineStartsFrom, ih, Text.byteLength, Nat.add_assoc]
    split <;> rfl

theorem lineStartsFrom_concat (offset : Nat) (text : List Char) (c : Char) :
    lineStartsFrom offset (text ++ [c]) = lineStartsFrom offset text ++
      if c = '\n' then [offset + Text.byteLength (text ++ [c])] else [] := by
  rw [lineStartsFrom_append, Text.byteLength_append, ← Nat.add_assoc]
  rfl

theorem lt_of_mem_lineStartsFrom {offset n : Nat} {text : List Char} (h : n ∈ lineStartsFrom offset text) :
    offset < n ∧ n ≤ offset + Text.byteLength text := by
  induction text generalizing offset with
  | nil => cases h
  | cons c text ih =>
    have hc := c.utf8Size_pos
    simp only [lineStartsFrom, Text.byteLength] at h ⊢
    have tail : n ∈ lineStartsFrom (offset + c.utf8Size) text →
        offset < n ∧ n ≤ offset + (c.utf8Size + Text.byteLength text) := by
      intro h
      have := ih h
      omega
    split at h
    · rcases List.mem_cons.1 h with rfl | h
      · omega
      · exact tail h
    · exact tail h

/-- The lines that begin up to a place are those of the text before it. -/
theorem lineStarts_filter (before after : List Char) :
    (lineStarts (before ++ after)).filter (· ≤ Text.byteLength before) = lineStarts before := by
  unfold lineStarts
  rw [lineStartsFrom_append, ← List.cons_append, List.filter_append]
  have hbefore : (0 :: lineStartsFrom 0 before).filter (· ≤ Text.byteLength before) =
      0 :: lineStartsFrom 0 before := by
    refine List.filter_eq_self.2 fun n hn => decide_eq_true ?_
    rcases List.mem_cons.1 hn with rfl | hn
    · exact Nat.zero_le _
    · have := (lt_of_mem_lineStartsFrom hn).2
      omega
  have hafter : (lineStartsFrom (0 + Text.byteLength before) after).filter (· ≤ Text.byteLength before) = [] := by
    refine List.filter_eq_nil_iff.2 fun n hn => ?_
    have := (lt_of_mem_lineStartsFrom hn).1
    rw [decide_eq_true_iff]
    omega
  rw [hbefore, hafter, List.append_nil]

theorem length_lineStarts (text : List Char) : (lineStarts text).length = text.count '\n' + 1 := by
  induction text using List.reverseRecOn with
  | nil => rfl
  | append_singleton text c ih =>
    unfold lineStarts at ih ⊢
    rw [lineStartsFrom_concat, ← List.cons_append, List.length_append, ih, List.count_append]
    by_cases hc : c = '\n'
    · simp [hc]
    · simp [hc]

/-- The last line of a text begins after its last newline. -/
theorem getLast?_lineStarts (text : List Char) :
    (lineStarts text).getLast? = some (Text.byteLength (text.rdropWhile (· ≠ '\n'))) := by
  induction text using List.reverseRecOn with
  | nil => rfl
  | append_singleton text c ih =>
    unfold lineStarts at ih ⊢
    rw [lineStartsFrom_concat, ← List.cons_append]
    by_cases hc : c = '\n'
    · rw [if_pos hc, List.getLast?_concat, List.rdropWhile_concat_neg _ _ _ (by simp [hc]), Nat.zero_add]
    · rw [if_neg hc, List.append_nil, ih, List.rdropWhile_concat_pos _ _ _ (by simp [hc])]

/-- Line and column of a place. -/
theorem position_append (before after : List Char) :
    position (before ++ after) (Text.byteLength before) = positionAfter before := by
  have hmin : min (Text.byteLength before) (Text.byteLength (before ++ after)) = Text.byteLength before := by
    rw [Text.byteLength_append]
    omega
  have hcut : before.rdropWhile (· ≠ '\n') ++ before.rtakeWhile (· ≠ '\n') = before :=
    List.rdropWhile_append_rtakeWhile
  have hslice : Text.slice? (before ++ after) (Text.byteLength (before.rdropWhile (· ≠ '\n')))
      (Text.byteLength before) = some (before.rtakeWhile (· ≠ '\n')) := by
    refine Text.slice?_eq_some_iff.2 ⟨before.rdropWhile (· ≠ '\n'), after, ?_, rfl, ?_⟩
    · rw [← List.append_assoc, hcut]
    · rw [← Text.byteLength_append, hcut]
  unfold position positionAfter
  simp only [hmin, lineStarts_filter, length_lineStarts, getLast?_lineStarts, Option.getD_some, hslice]

end Source

end PegFront
