import PegFront.Peg.Scanner

/-!
# Places in an input

A place is an offset inside the scanned part of a source at which the source can be cut: a char
boundary between the two ends. A cursor is `In` an input if it stands at a place and holds what is left
from there. Reading on from such a cursor gives such a cursor, and the text between two of them is a
part of the source.
-/

namespace PegFront

namespace Text

theorem dropBytes?_eq_some_iff {n : Nat} {cs rest : List Char} :
    dropBytes? n cs = some rest ↔ ∃ before, cs = before ++ rest ∧ byteLength before = n := by
  constructor
  · intro h
    fun_induction dropBytes? n cs with
    | case1 cs => exact ⟨[], by simpa using h, rfl⟩
    | case2 => simp at h
    | case3 n c cs hc ih =>
      obtain ⟨before, rfl, hb⟩ := ih h
      exact ⟨c :: before, rfl, by simp only [byteLength, hb]; omega⟩
    | case4 => simp at h
  · rintro ⟨before, rfl, rfl⟩
    exact dropBytes?_byteLength_append before rest

theorem takeBytes?_eq_some_iff {n : Nat} {cs first : List Char} :
    takeBytes? n cs = some first ↔ ∃ rest, cs = first ++ rest ∧ byteLength first = n := by
  constructor
  · intro h
    fun_induction takeBytes? n cs generalizing first with
    | case1 cs => exact ⟨cs, by simp_all, by simp_all [byteLength]⟩
    | case2 => simp at h
    | case3 n c cs hc ih =>
      obtain ⟨text, ht, rfl⟩ := Option.map_eq_some_iff.1 h
      obtain ⟨rest, rfl, hb⟩ := ih ht
      exact ⟨rest, rfl, by simp only [byteLength, hb]; omega⟩
    | case4 => simp at h
  · rintro ⟨rest, rfl, rfl⟩
    exact takeBytes?_byteLength_append first rest

/-- A slice is what stands between a text of `start` bytes and the rest. -/
theorem slice?_eq_some_iff {cs text : List Char} {start stop : Nat} :
    slice? cs start stop = some text ↔ ∃ before after, cs = before ++ (text ++ after) ∧
      byteLength before = start ∧ start + byteLength text = stop := by
  unfold slice?
  constructor
  · intro h
    split at h
    · next hle =>
      obtain ⟨rest, hd, ht⟩ := Option.bind_eq_some_iff.1 h
      obtain ⟨before, rfl, hb⟩ := dropBytes?_eq_some_iff.1 hd
      obtain ⟨after, rfl, hl⟩ := takeBytes?_eq_some_iff.1 ht
      exact ⟨before, after, rfl, hb, by omega⟩
    · simp at h
  · rintro ⟨before, after, rfl, rfl, rfl⟩
    rw [if_pos (by omega), dropBytes?_byteLength_append, Option.bind_some, Nat.add_sub_cancel_left,
      takeBytes?_byteLength_append]

theorem eq_nil_of_byteLength {cs : List Char} (h : byteLength cs = 0) : cs = [] := by
  cases cs with
  | nil => rfl
  | cons c cs => have := c.utf8Size_pos; simp only [byteLength] at h; omega

/-- Of two texts that begin a third one, the one with fewer bytes begins the other. -/
theorem exists_append_of_byteLength_le {as bs cs ds : List Char} (h : as ++ bs = cs ++ ds)
    (hl : byteLength as ≤ byteLength cs) : ∃ middle, cs = as ++ middle ∧ bs = middle ++ ds := by
  rcases List.append_eq_append_iff.1 h with ⟨middle, rfl, rfl⟩ | ⟨middle, rfl, rfl⟩
  · exact ⟨middle, rfl, rfl⟩
  · rw [byteLength_append] at hl
    obtain rfl := eq_nil_of_byteLength (show byteLength middle = 0 by omega)
    exact ⟨[], by simp, by simp⟩

/-- Behind another text the same slice stands further on. -/
theorem slice?_behind (front cs : List Char) (start stop : Nat) :
    slice? (front ++ cs) (start + byteLength front) (stop + byteLength front) = slice? cs start stop := by
  have hdrop : dropBytes? (start + byteLength front) (front ++ cs) = dropBytes? start cs := by
    apply Option.ext
    intro rest
    rw [dropBytes?_eq_some_iff, dropBytes?_eq_some_iff]
    constructor
    · rintro ⟨before, hb, hl⟩
      obtain ⟨m, rfl, rfl⟩ := exists_append_of_byteLength_le hb (by omega)
      exact ⟨m, rfl, by rw [byteLength_append] at hl; omega⟩
    · rintro ⟨before, rfl, rfl⟩
      exact ⟨front ++ before, by simp, by rw [byteLength_append, Nat.add_comm]⟩
  simp only [slice?, hdrop, Nat.add_sub_add_right, Nat.add_le_add_iff_right]

theorem byteLength_toList (s : String) : byteLength s.toList = s.utf8ByteSize := by
  have h : ∀ cs : List Char, byteLength cs = (String.ofList cs).utf8ByteSize := by
    intro cs
    induction cs with
    | nil => rfl
    | cons c cs ih =>
      rw [byteLength, ih, ← List.singleton_append, String.ofList_append, String.utf8ByteSize_append,
        ← String.singleton_eq_ofList, String.utf8ByteSize_singleton]
  rw [h, String.ofList_toList]

end Text

/-- The span `n` bytes further on. -/
def Span.shift (n : Nat) (s : Span) : Span := ⟨s.file, s.start + n, s.stop + n⟩

/-- The input can be cut at an offset between its ends. -/
def Input.Boundary (i : Input) (offset : Nat) : Prop :=
  i.start ≤ offset ∧ (Text.slice? i.text offset i.stop).isSome

namespace Cursor

/-- The cursor stands at a place of the input and holds what is left of it there. -/
structure In (c : Cursor) (i : Input) : Prop where
  start_le : i.start ≤ c.offset
  slice : Text.slice? i.text c.offset i.stop = some c.rest

namespace In

variable {c d : Cursor} {i : Input}

theorem boundary (h : c.In i) : i.Boundary c.offset := ⟨h.start_le, by rw [h.slice]; rfl⟩

theorem offset_add (h : c.In i) : c.offset + Text.byteLength c.rest = i.stop := by
  obtain ⟨_, _, _, _, hl⟩ := Text.slice?_eq_some_iff.1 h.slice
  exact hl

theorem offset_le (h : c.In i) : c.offset ≤ i.stop := by have := h.offset_add; omega

theorem next (hc : c.In i) {ch : Char} (h : c.next? = some (ch, d)) :
    d.In i ∧ d.offset = c.offset + ch.utf8Size := by
  unfold next? at h
  split at h
  · simp at h
  · next ch' rest hr =>
    simp only [Option.some.injEq, Prod.mk.injEq] at h
    obtain ⟨rfl, rfl⟩ := h
    obtain ⟨before, after, ht, hb, hl⟩ := Text.slice?_eq_some_iff.1 hc.slice
    rw [hr] at ht hl
    refine ⟨⟨Nat.le_add_right_of_le hc.start_le, ?_⟩, rfl⟩
    refine Text.slice?_eq_some_iff.2 ⟨before ++ [ch'], after, by simpa using ht, ?_, ?_⟩
    · simp [Text.byteLength_append, Text.byteLength, hb]
    · simp only [Text.byteLength] at hl ⊢; omega

theorem after (hc : c.In i) {literal : List Char} (h : c.after? literal = some d) :
    d.In i ∧ d.offset = c.offset + Text.byteLength literal := by
  induction literal generalizing c with
  | nil =>
    obtain rfl : c = d := by simpa [after?] using h
    exact ⟨hc, rfl⟩
  | cons ch literal ih =>
    unfold after? at h
    cases hr : c.rest with
    | nil => simp [hr] at h
    | cons ch' rest =>
      simp only [hr] at h
      split at h
      · next he =>
        have hn : c.next? = some (ch', ⟨c.offset + ch'.utf8Size, rest⟩) := by rw [next?, hr]
        obtain ⟨hd, ho⟩ := ih (hc.next hn).1 h
        exact ⟨hd, by rw [ho]; simp only [Text.byteLength, he]; omega⟩
      · simp at h

/-- What is left at a place is the text up to a later place and what is left there. -/
theorem rest_eq (hc : c.In i) (hd : d.In i) (h : c.offset ≤ d.offset) :
    c.rest = c.textTo d.offset ++ d.rest ∧ c.offset + Text.byteLength (c.textTo d.offset) = d.offset := by
  obtain ⟨before, after, ht, hb, hl⟩ := Text.slice?_eq_some_iff.1 hc.slice
  obtain ⟨before', after', ht', hb', hl'⟩ := Text.slice?_eq_some_iff.1 hd.slice
  obtain ⟨middle, rfl, hm⟩ := Text.exists_append_of_byteLength_le (ht.symm.trans ht') (by omega)
  rw [Text.byteLength_append] at hb'
  rw [← List.append_assoc] at hm
  have hlen : Text.byteLength (middle ++ d.rest) = Text.byteLength c.rest := by
    rw [Text.byteLength_append]; omega
  obtain ⟨tail, hr, -⟩ := Text.exists_append_of_byteLength_le hm.symm (Nat.le_of_eq hlen)
  have htail : tail = [] := by
    refine Text.eq_nil_of_byteLength ?_
    have := congrArg Text.byteLength hr
    rw [Text.byteLength_append] at this
    omega
  rw [htail, List.append_nil] at hr
  have hmid : c.textTo d.offset = middle := by
    rw [Cursor.textTo, hr, show d.offset - c.offset = Text.byteLength middle by omega,
      Text.takeBytes?_byteLength_append, Option.getD_some]
  rw [hmid]
  exact ⟨hr, by omega⟩

/-- The text between two places is a part of the source. -/
theorem slice_textTo (hc : c.In i) (hd : d.In i) (h : c.offset ≤ d.offset) :
    Text.slice? i.text c.offset d.offset = some (c.textTo d.offset) := by
  obtain ⟨before, after, ht, hb, -⟩ := Text.slice?_eq_some_iff.1 hc.slice
  obtain ⟨hr, hl⟩ := hc.rest_eq hd h
  refine Text.slice?_eq_some_iff.2 ⟨before, d.rest ++ after, ?_, hb, hl⟩
  rw [ht, hr, List.append_assoc]

end In

end Cursor

/-- A scanner over a whole text starts at a place of it. -/
theorem Scanner.new_whole_in (text : List Char) (fileIndex : Nat) (file : String) :
    (Scanner.new (.whole text fileIndex file)).cursor.In (.whole text fileIndex file) := by
  have h : Text.slice? text 0 (Text.byteLength text) = some text :=
    Text.slice?_eq_some_iff.2 ⟨[], [], by simp, rfl, by simp⟩
  refine ⟨Nat.le_refl 0, ?_⟩
  show Text.slice? text 0 (Text.byteLength text) =
    some ((Text.slice? text 0 (Text.byteLength text)).getD [])
  rw [h, Option.getD_some]

end PegFront
