import Mathlib.Data.List.Perm.Subperm
import Mathlib.Logic.Relation
import PegFront.Peg.Link
import PegFront.Proofs.Registrations

/-!
# The order of linking

The walk over the grammars enters each of them once. What a visit adds to the order is what it adds to
the grammars seen (`Walk.Grows`), and each nested visit has seen one grammar more, so the fuel lasts and
every grammar is in the order exactly once.

A grammar is left after everything it refers to, unless that is still to be left itself. But what was entered
and is not yet left leads to the grammar that is visited (`Walk.LeadsTo`), so then the two are in a cycle. That
is the only exception to the rule that what a grammar refers to comes before it (`Walk.Ordered`).
-/

namespace PegFront

open Relation (ReflTransGen TransGen)

namespace Link

/-- What was seen are different grammars. -/
structure Walk.Sound (count : Nat) (w : Walk) : Prop where
  distinct : w.seen.Nodup
  bound : ∀ i ∈ w.seen, i < count

/-- Whatever is entered between two states of the walk is also left. -/
def Walk.Grows (w w' : Walk) : Prop := ∃ left, w'.order = w.order ++ left ∧ w'.seen.Perm (left ++ w.seen)

namespace Walk

variable {count : Nat} {w w' w'' : Walk}

theorem Sound.length_le (h : w.Sound count) : w.seen.length ≤ count := by
  have hsub : w.seen ⊆ List.range count := fun i hi => List.mem_range.2 (h.bound i hi)
  simpa using (List.subperm_of_subset h.distinct hsub).length_le

theorem Sound.enter {i : Nat} (h : w.Sound count) (hi : i < count) (hnew : i ∉ w.seen) :
    ({ w with seen := i :: w.seen } : Walk).Sound count :=
  ⟨List.nodup_cons.2 ⟨hnew, h.distinct⟩, List.forall_mem_cons.2 ⟨hi, h.bound⟩⟩

theorem Grows.rfl : w.Grows w := ⟨[], by simp, .refl _⟩

theorem Grows.trans (h : w.Grows w') (h' : w'.Grows w'') : w.Grows w'' := by
  obtain ⟨left, ho, hs⟩ := h
  obtain ⟨left', ho', hs'⟩ := h'
  refine ⟨left ++ left', by rw [ho', ho, List.append_assoc], hs'.trans ?_⟩
  rw [List.append_assoc]
  exact (hs.append_left left').trans (List.perm_append_comm_assoc ..)

theorem Grows.mem {i : Nat} (h : w.Grows w') (hi : i ∈ w.seen) : i ∈ w'.seen := by
  obtain ⟨_, _, hs⟩ := h
  exact hs.mem_iff.2 (List.mem_append_right _ hi)

theorem Grows.length_le (h : w.Grows w') : w.seen.length ≤ w'.seen.length := by
  obtain ⟨_, _, hs⟩ := h
  rw [hs.length_eq, List.length_append]
  omega

/-- A grammar is left after everything that was entered since. -/
theorem Grows.leave {i : Nat} (h : ({ w with seen := i :: w.seen } : Walk).Grows w') :
    w.Grows { w' with order := w'.order ++ [i] } := by
  obtain ⟨left, ho, hs⟩ := h
  refine ⟨left ++ [i], by simp [ho], hs.trans ?_⟩
  simp

end Walk

variable {count : Nat} {references : Nat → List Nat}

/-- `i` refers to `j`. -/
def Refers (references : Nat → List Nat) (i j : Nat) : Prop := j ∈ references i

namespace Walk

variable {w w' : Walk} {i j : Nat}

/-- Before each place of the order stands everything that is referred to there, or else it leads back. -/
def Ordered (references : Nat → List Nat) (w : Walk) : Prop :=
  ∀ before i after, w.order = before ++ i :: after → ∀ j ∈ references i,
    j ∈ before ∨ ReflTransGen (Refers references) j i

/-- What was entered and is not yet left refers to `i`, directly or through others. -/
def LeadsTo (references : Nat → List Nat) (w : Walk) (i : Nat) : Prop :=
  ∀ k ∈ w.seen, k ∉ w.order → ReflTransGen (Refers references) k i

theorem LeadsTo.enter (h : w.LeadsTo references i) : ({ w with seen := i :: w.seen } : Walk).LeadsTo references i := by
  intro k hk hopen
  rcases List.mem_cons.1 hk with rfl | hk
  · exact .refl
  · exact h k hk hopen

theorem LeadsTo.refer (h : w.LeadsTo references i) (hj : j ∈ references i) : w.LeadsTo references j :=
  fun k hk hopen => (h k hk hopen).tail hj

/-- A visit leaves open what was open before. -/
theorem LeadsTo.grow (h : w.LeadsTo references i) (hg : w.Grows w') : w'.LeadsTo references i := by
  obtain ⟨left, ho, hs⟩ := hg
  intro k hk hopen
  rw [ho, List.mem_append, not_or] at hopen
  exact h k ((List.mem_append.1 (hs.mem_iff.1 hk)).resolve_left hopen.2) hopen.1

/-- What is referred to was seen: it has been left, or it leads here. -/
theorem Ordered.leave (h : w.Ordered references) (hl : w.LeadsTo references i)
    (hseen : ∀ j ∈ references i, j ∈ w.seen) : ({ w with order := w.order ++ [i] } : Walk).Ordered references := by
  intro before k after ho j hj
  rcases List.eq_nil_or_concat after with rfl | ⟨after, last, rfl⟩
  · obtain ⟨rfl, hk⟩ := List.append_inj' (show w.order ++ [i] = before ++ [k] from ho) rfl
    obtain rfl := List.head_eq_of_cons_eq hk
    by_cases hj' : j ∈ w.order
    · exact .inl hj'
    · exact .inr (hl j (hseen j hj) hj')
  · have ho' : w.order ++ [i] = (before ++ k :: after) ++ [last] := by simpa using ho
    exact h before k after (List.append_inj' ho' rfl).1 j hj

end Walk

/-- What visiting keeps and achieves. -/
structure Visits (count : Nat) (references : Nat → List Nat) (is : List Nat) (w w' : Walk) : Prop where
  sound : w'.Sound count
  grows : w.Grows w'
  seen : ∀ i ∈ is, i ∈ w'.seen
  ordered : w.Ordered references → (∀ i ∈ is, w.LeadsTo references i) → w'.Ordered references

/-- Visits one after the other, each with fuel for all that is not yet seen. -/
theorem visits_foldl {fuel : Nat} (is : List Nat) (his : ∀ i ∈ is, i < count)
    (hvisit : ∀ i < count, ∀ w : Walk, w.Sound count → count < fuel + w.seen.length →
      Visits count references [i] w (visit references fuel i w))
    {w : Walk} (hw : w.Sound count) (hfuel : count < fuel + w.seen.length) :
    Visits count references is w (is.foldl (fun w i => visit references fuel i w) w) := by
  induction is generalizing w with
  | nil => exact ⟨hw, .rfl, by simp, fun ho _ => ho⟩
  | cons i is ih =>
    have hi := hvisit i (his i List.mem_cons_self) w hw hfuel
    have hrest := ih (fun j hj => his j (List.mem_cons_of_mem _ hj)) hi.sound (by
      have := hi.grows.length_le
      omega)
    refine ⟨hrest.sound, hi.grows.trans hrest.grows, List.forall_mem_cons.2 ⟨?_, hrest.seen⟩, fun ho hl => ?_⟩
    · exact hrest.grows.mem (hi.seen i List.mem_cons_self)
    · obtain ⟨hl, hls⟩ := List.forall_mem_cons.1 hl
      exact hrest.ordered (hi.ordered ho (by simpa using hl)) fun j hj => (hls j hj).grow hi.grows

theorem visits_visit (hrefs : ∀ i < count, ∀ j ∈ references i, j < count) (fuel : Nat) :
    ∀ i < count, ∀ w : Walk, w.Sound count → count < fuel + w.seen.length →
      Visits count references [i] w (visit references fuel i w) := by
  induction fuel with
  | zero =>
    intro i hi w hw hfuel
    have := hw.length_le
    omega
  | succ fuel ih =>
    intro i hi w hw hfuel
    unfold visit
    split
    · next hseen => exact ⟨hw, .rfl, by simpa using hseen, fun ho _ => ho⟩
    · next hnew =>
      have hin := hw.enter hi (by simpa using hnew)
      have hnested := visits_foldl _ (hrefs i hi) ih hin (by
        simp only [List.length_cons]
        omega)
      refine ⟨⟨hnested.sound.distinct, hnested.sound.bound⟩, hnested.grows.leave, ?_, fun ho hl => ?_⟩
      · simpa using hnested.grows.mem (i := i) List.mem_cons_self
      · have hin : ({ w with seen := i :: w.seen } : Walk).LeadsTo references i := (hl i List.mem_cons_self).enter
        exact (hnested.ordered ho fun j hj => hin.refer hj).leave (hin.grow hnested.grows) hnested.seen

theorem visits_all (hrefs : ∀ i < count, ∀ j ∈ references i, j < count) :
    Visits count references (List.range count) {}
      ((List.range count).foldl (fun w i => visit references (count + 1) i w) {}) :=
  visits_foldl (List.range count) (fun _ hi => List.mem_range.1 hi) (visits_visit hrefs (count + 1))
    ⟨by simp, by simp⟩ (by simp)

/-- The order holds every grammar once. -/
theorem dependencyOrder_perm (hrefs : ∀ i < count, ∀ j ∈ references i, j < count) :
    (dependencyOrder count references).Perm (List.range count) := by
  have hall := visits_all hrefs
  have hseen := (List.perm_ext_iff_of_nodup hall.sound.distinct List.nodup_range).2 fun i =>
    ⟨fun hi => List.mem_range.2 (hall.sound.bound i hi), hall.seen i⟩
  obtain ⟨left, ho, hs⟩ := hall.grows
  have hleft : dependencyOrder count references = left := by simpa [dependencyOrder] using ho
  rw [show left ++ ({} : Walk).seen = left from List.append_nil left] at hs
  rw [hleft]
  exact hs.symm.trans hseen

/-- What a grammar refers to comes before it, or leads back to it. -/
theorem idxOf_dependencyOrder_lt (hrefs : ∀ i < count, ∀ j ∈ references i, j < count) {i j : Nat} (hi : i < count)
    (hj : j ∈ references i) (hback : ¬ReflTransGen (Refers references) j i) :
    (dependencyOrder count references).idxOf j < (dependencyOrder count references).idxOf i := by
  have hperm := dependencyOrder_perm hrefs
  have hordered : ∀ before k after, dependencyOrder count references = before ++ k :: after → ∀ l ∈ references k,
      l ∈ before ∨ ReflTransGen (Refers references) l k :=
    (visits_all hrefs).ordered (fun _ _ _ h => by simp at h) fun _ _ _ hk => by simp at hk
  obtain ⟨before, after, hsplit⟩ := List.append_of_mem (hperm.mem_iff.2 (List.mem_range.2 hi))
  have hbefore := (hordered before i after hsplit j hj).resolve_right hback
  have hnotin : i ∉ before := fun hmem => by
    have hnodup := hperm.nodup_iff.2 List.nodup_range
    rw [hsplit] at hnodup
    exact (List.nodup_append.1 hnodup).2.2 i hmem i List.mem_cons_self rfl
  rw [hsplit, List.idxOf_append_of_mem hbefore, List.idxOf_append_of_notMem hnotin]
  exact Nat.lt_add_right _ (List.idxOf_lt_length_of_mem hbefore)

end Link

/-! ## Registries -/

namespace Registry

open Link

variable {V : Type} {r : Registry V} {i j : Nat}

/-- The grammar at `i` refers to the one at `j` by its name. -/
def RefersTo (r : Registry V) (i j : Nat) : Prop :=
  ∃ g h, r.grammars[i]? = some g ∧ r.grammars[j]? = some h ∧ h.name ∈ g.references

theorem Indexed.mem_referencesOf_iff (h : r.Indexed) : j ∈ r.referencesOf i ↔ r.RefersTo i j := by
  unfold referencesOf RefersTo
  split
  · next g hg => simp only [List.mem_filterMap, h.position, hg, Option.some.injEq]; grind
  · next hg => simp [hg]

theorem Indexed.referencesOf_lt (h : r.Indexed) :
    ∀ i < r.grammars.length, ∀ j ∈ r.referencesOf i, j < r.grammars.length := by
  intro i _ j hj
  obtain ⟨_, _, _, hj, _⟩ := h.mem_referencesOf_iff.1 hj
  exact (List.getElem?_eq_some_iff.1 hj).1

theorem Indexed.refers_referencesOf (h : r.Indexed) : Refers r.referencesOf = r.RefersTo := by
  funext i j
  exact propext h.mem_referencesOf_iff

/-- Grammars are linked in an order that holds each of them once, and in which a grammar comes after every
grammar it refers to from which there is no way back. So without cycles it comes after all it refers to. -/
theorem dependencies_first (calls : List (Registration V)) :
    let r := (empty : Registry V).performAll calls
    let order := dependencyOrder r.grammars.length r.referencesOf
    order.Perm (List.range r.grammars.length) ∧
      (∀ i j, r.RefersTo i j → ¬ReflTransGen r.RefersTo j i → order.idxOf j < order.idxOf i) ∧
      ((∀ i, ¬TransGen r.RefersTo i i) → ∀ i j, r.RefersTo i j → order.idxOf j < order.idxOf i) := by
  intro r order
  have hindexed : r.Indexed := (indexed_empty.orderly_performAll calls).indexed
  have hfirst : ∀ i j, r.RefersTo i j → ¬ReflTransGen r.RefersTo j i → order.idxOf j < order.idxOf i := by
    intro i j hij hback
    have hi : i < r.grammars.length := by
      obtain ⟨_, _, hi, _⟩ := hij
      exact (List.getElem?_eq_some_iff.1 hi).1
    rw [← hindexed.refers_referencesOf] at hback
    exact idxOf_dependencyOrder_lt hindexed.referencesOf_lt hi (hindexed.mem_referencesOf_iff.2 hij) hback
  exact ⟨dependencyOrder_perm hindexed.referencesOf_lt, hfirst, fun hacyclic i j hij =>
    hfirst i j hij fun hback => hacyclic i (.head' hij hback)⟩

/-- Two grammars that refer to each other, the second also to one that refers to nothing. -/
theorem dependencies_first_beside_cycle :
    let calls : List (Registration Unit) :=
      [.add { name := "A", references := ["B"] }, .add { name := "B", references := ["A", "C"] }, .add { name := "C" }]
    let r := empty.performAll calls
    let order := dependencyOrder r.grammars.length r.referencesOf
    r.RefersTo 0 1 ∧ r.RefersTo 1 0 ∧ r.RefersTo 1 2 ∧ ¬ReflTransGen r.RefersTo 2 1 ∧
      order.idxOf 2 < order.idxOf 1 := by
  intro calls r order
  have hrefers : r.RefersTo 1 2 := ⟨_, _, rfl, rfl, by simp⟩
  have hback : ¬ReflTransGen r.RefersTo 2 1 := by
    intro h
    rcases h.cases_head with h | ⟨k, ⟨g, _, hg, _, hname⟩, _⟩
    · nomatch h
    · cases hg
      nomatch hname
  exact ⟨⟨_, _, rfl, rfl, by simp⟩, ⟨_, _, rfl, rfl, by simp⟩, hrefers, hback,
    (dependencies_first calls).2.1 1 2 hrefers hback⟩

end Registry

end PegFront
