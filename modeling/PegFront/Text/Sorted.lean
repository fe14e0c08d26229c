/-!
# Sorted sets of words

A set of words is the list of them, ascending by code points and without repetition.
-/

namespace PegFront.Text

def insertSorted (word : String) : List String → List String
  | [] => [word]
  | w :: ws =>
    if word = w then w :: ws
    else if word < w then word :: w :: ws
    else w :: insertSorted word ws

def sorted (words : List String) : List String := words.foldl (fun ws w => insertSorted w ws) []

theorem mem_insertSorted (word x : String) (ws : List String) :
    x ∈ insertSorted word ws ↔ x = word ∨ x ∈ ws := by
  induction ws with
  | nil => simp [insertSorted]
  | cons w ws ih =>
    rw [insertSorted]
    split
    · next h => simp [h]
    · split
      · simp
      · simp only [List.mem_cons, ih]; exact or_left_comm

theorem pairwise_insertSorted (word : String) {ws : List String} (h : ws.Pairwise (· < ·)) :
    (insertSorted word ws).Pairwise (· < ·) := by
  induction ws with
  | nil => exact List.pairwise_singleton _ _
  | cons w ws ih =>
    obtain ⟨hw, hws⟩ := List.pairwise_cons.1 h
    rw [insertSorted]
    split
    · exact h
    · next hne =>
      split
      · next hlt =>
        exact List.pairwise_cons.2 ⟨List.forall_mem_cons.2 ⟨hlt, fun x hx => String.lt_trans hlt (hw x hx)⟩, h⟩
      · next hge =>
        refine List.pairwise_cons.2 ⟨fun x hx => ?_, ih hws⟩
        rcases (mem_insertSorted word x ws).1 hx with rfl | hx
        · exact Classical.byContradiction fun hge' =>
            hne (String.le_antisymm (String.not_lt.1 hge') (String.not_lt.1 hge))
        · exact hw x hx

end PegFront.Text
