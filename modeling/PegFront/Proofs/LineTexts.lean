import Mathlib.Data.Prod.Lex
import Mathlib.Order.Monotone.Defs
import PegFront.Proofs.Lines

/-!
# Texts of lines

Line and column of a place are those of the text before it, so a place further on has a greater line, or a greater
column in the same line (`strictMonoOn_position`). The lines of a source are the pieces between its newlines: what
a line shows is its piece less the carriage return it may end in (`lineText?_eq`).
-/

namespace PegFront

/-- Line and column, compared in this order. -/
def Position.key (p : Position) : Lex (Nat × Nat) := toLex (p.line, p.column)

/-- The text can be cut at an offset. -/
def Text.Boundary (cs : List Char) (offset : Nat) : Prop :=
  ∃ before after, cs = before ++ after ∧ byteLength before = offset

namespace Source

variable {source before middle line rest : List Char}

/-! ## Order of places -/

theorem rtakeWhile_append_of_flat (h : '\n' ∉ middle) :
    (before ++ middle).rtakeWhile (· ≠ '\n') = before.rtakeWhile (· ≠ '\n') ++ middle := by
  have hall : ∀ c ∈ middle.reverse, decide (c ≠ '\n') = true := by
    intro c hc
    exact decide_eq_true fun he => h (he ▸ List.mem_reverse.1 hc)
  rw [List.rtakeWhile, List.reverse_append, List.takeWhile_append_of_pos hall, List.reverse_append,
    List.reverse_reverse, List.rtakeWhile]

theorem positionAfter_lt (before : List Char) (h : middle ≠ []) :
    (positionAfter before).key < (positionAfter (before ++ middle)).key := by
  rw [Position.key, Position.key, Prod.Lex.toLex_lt_toLex]
  by_cases hn : '\n' ∈ middle
  · left
    have hcount := List.count_pos_iff.2 hn
    simp only [positionAfter, List.count_append]
    omega
  · right
    have hlength := List.length_pos_iff.2 h
    have hline : (positionAfter (before ++ middle)).line = (positionAfter before).line := by
      rw [positionAfter, List.count_append, List.count_eq_zero.2 hn]
      rfl
    have hcolumn : (positionAfter (before ++ middle)).column = (positionAfter before).column + middle.length := by
      simp only [positionAfter, rtakeWhile_append_of_flat hn, List.length_append, Nat.add_right_comm]
    exact ⟨hline.symm, by omega⟩

/-- A place further on has a greater line, or a greater column in the same line. -/
theorem strictMonoOn_position (source : List Char) :
    StrictMonoOn (fun offset => (position source offset).key) {offset | Text.Boundary source offset} := by
  rintro _ ⟨before, after, rfl, rfl⟩ _ ⟨before', after', h, rfl⟩ hlt
  obtain ⟨middle, rfl, rfl⟩ := Text.exists_append_of_byteLength_le h hlt.le
  have hne : middle ≠ [] := by
    rintro rfl
    rw [List.append_nil] at hlt
    exact lt_irrefl _ hlt
  have hposition : position (before ++ (middle ++ after')) (Text.byteLength (before ++ middle)) =
      positionAfter (before ++ middle) := by
    rw [← List.append_assoc, position_append]
  show (position _ _).key < (position _ _).key
  rw [hposition, position_append]
  exact positionAfter_lt before hne

/-! ## Where lines begin -/

theorem lineStartsFrom_add (offset n : Nat) (text : List Char) :
    lineStartsFrom (offset + n) text = (lineStartsFrom offset text).map (· + n) := by
  induction text generalizing offset with
  | nil => rfl
  | cons c text ih =>
    simp only [lineStartsFrom, Nat.add_right_comm offset n, ih]
    split <;> rfl

theorem lineStarts_flat (h : '\n' ∉ line) : lineStarts line = [0] := by
  have hlength := length_lineStarts line
  rw [List.count_eq_zero.2 h] at hlength
  obtain ⟨n, hn⟩ := List.length_eq_one_iff.1 hlength
  rw [hn, ← (List.cons.inj hn).1]

/-- The first line of a source that has more of them, and what begins behind it. -/
theorem lineStarts_line (h : '\n' ∉ line) (rest : List Char) :
    lineStarts (line ++ '\n' :: rest) = 0 :: (lineStarts rest).map (· + Text.byteLength (line ++ ['\n'])) := by
  have hline := (List.cons.inj (lineStarts_flat h)).2
  unfold lineStarts
  rw [List.append_cons, lineStartsFrom_append, lineStartsFrom_concat, hline, if_pos rfl, Nat.zero_add, List.map_cons,
    Nat.zero_add, ← lineStartsFrom_add, Nat.zero_add]
  rfl

/-! ## Lines as pieces -/

theorem lineText?_succ (source : List Char) (k : Nat) : lineText? source (k + 1) =
    (lineStarts source)[k]?.bind fun start => (Text.slice? source start
      (((lineStarts source)[k + 1]?.map (· - 1)).getD (Text.byteLength source))).map stripReturn := by
  have hguard : (guard (1 ≤ k + 1) : Option Unit) = some () := if_pos (Nat.le_add_left 1 k)
  unfold lineText?
  dsimp only
  rw [hguard]
  cases (lineStarts source)[k + 1]? <;> rfl

/-- A source that is one line. -/
theorem lineText?_flat (h : '\n' ∉ line) : lineText? line 1 = some (stripReturn line) := by
  have hwhole : Text.slice? line 0 (Text.byteLength line) = some line :=
    Text.slice?_eq_some_iff.2 ⟨[], [], by simp, rfl, Nat.zero_add _⟩
  rw [lineText?_succ, lineStarts_flat h]
  exact congrArg (Option.map stripReturn) hwhole

/-- The first of several lines. -/
theorem lineText?_first (h : '\n' ∉ line) (rest : List Char) :
    lineText? (line ++ '\n' :: rest) 1 = some (stripReturn line) := by
  have hfirst : Text.slice? (line ++ '\n' :: rest) 0 (Text.byteLength line) = some line :=
    Text.slice?_eq_some_iff.2 ⟨[], '\n' :: rest, rfl, rfl, Nat.zero_add _⟩
  have hstop : Text.byteLength (line ++ ['\n']) - 1 = Text.byteLength line := by
    rw [Text.byteLength_append]
    rfl
  rw [lineText?_succ, lineStarts_line h]
  simp only [lineStarts, List.getElem?_cons_zero, List.getElem?_cons_succ, List.map_cons, Option.bind_some,
    Option.map_some, Option.getD_some, Nat.zero_add, hstop, hfirst]

/-- The lines behind the first one are those of the text behind its newline. -/
theorem lineText?_next (h : '\n' ∉ line) (rest : List Char) (k : Nat) :
    lineText? (line ++ '\n' :: rest) (k + 2) = lineText? rest (k + 1) := by
  have hstop : (((lineStarts rest).map (· + Text.byteLength (line ++ ['\n'])))[k + 1]?.map (· - 1)).getD
      (Text.byteLength (line ++ '\n' :: rest)) = ((lineStarts rest)[k + 1]?.map (· - 1)).getD
        (Text.byteLength rest) + Text.byteLength (line ++ ['\n']) := by
    rw [List.getElem?_map]
    cases hnext : (lineStarts rest)[k + 1]? with
    | none =>
      show Text.byteLength (line ++ '\n' :: rest) = Text.byteLength rest + _
      rw [List.append_cons line, Text.byteLength_append, Nat.add_comm]
    | some next =>
      -- No line but the first one begins at the start.
      have hpos : 0 < next := (lt_of_mem_lineStartsFrom (List.mem_of_getElem? hnext)).1
      show next + _ - 1 = next - 1 + _
      omega
  rw [lineText?_succ, lineText?_succ, lineStarts_line h, List.getElem?_cons_succ, List.getElem?_cons_succ, hstop,
    List.getElem?_map]
  cases (lineStarts rest)[k]? with
  | none => rfl
  | some start =>
    show Option.map _ (Text.slice? _ (start + _) _) = _
    rw [List.append_cons, Text.slice?_behind]
    rfl

/-- The text of a line is the piece between two newlines, less the carriage return it may end in. -/
theorem lineText?_eq (source : List Char) (k : Nat) :
    lineText? source (k + 1) = (source.splitOn '\n')[k]?.map stripReturn := by
  induction k generalizing source with
  | zero =>
    by_cases h : '\n' ∈ source
    · obtain ⟨line, rest, rfl, hline⟩ := List.eq_append_cons_of_mem h
      rw [lineText?_first hline, List.splitOn_append_cons_self_of_not_mem hline]
      rfl
    · rw [lineText?_flat h, List.splitOn_eq_singleton h]
      rfl
  | succ k ih =>
    by_cases h : '\n' ∈ source
    · obtain ⟨line, rest, rfl, hline⟩ := List.eq_append_cons_of_mem h
      rw [lineText?_next hline, List.splitOn_append_cons_self_of_not_mem hline, ih]
      rfl
    · rw [lineText?_succ, lineStarts_flat h, List.splitOn_eq_singleton h]
      rfl

theorem length_splitOn (source : List Char) : (source.splitOn '\n').length = lineCount source := by
  rw [lineCount, length_lineStarts]
  induction source with
  | nil => rfl
  | cons c source ih =>
    rw [List.splitOn_cons_eq_if_modifyHead, List.count_cons]
    split
    · rw [List.length_cons, ih]
    · rw [List.length_modifyHead, ih]

theorem lineText?_isSome_iff (source : List Char) (k : Nat) :
    (lineText? source k).isSome ↔ 1 ≤ k ∧ k ≤ lineCount source := by
  cases k with
  | zero =>
    have hnone : lineText? source 0 = none := rfl
    simp [hnone]
  | succ k =>
    rw [lineText?_eq, Option.isSome_map, ← length_splitOn, isSome_getElem?]
    show k < _ ↔ _
    omega

/-- The line ended in a carriage return, and it is gone, or it ended in none. -/
theorem stripReturn_cases (line : List Char) :
    line = stripReturn line ++ ['\r'] ∨ line = stripReturn line ∧ line.getLast? ≠ some '\r' := by
  unfold stripReturn
  split
  · next h =>
    left
    obtain ⟨front, rfl⟩ := List.getLast?_eq_some_iff.1 h
    rw [List.dropLast_concat]
  · next h => exact .inr ⟨rfl, h⟩

/-- Line and column of a place are one more than the newlines before it and the chars since the last of them, so they
grow with the place, lines before columns. Just the numbers from one up to the count of lines have a text; it is the
piece with this number between the newlines, less the one carriage return it may end in. -/
theorem lines_exact (source : List Char) :
    (∀ before after, source = before ++ after → position source (Text.byteLength before) =
      ⟨1 + before.count '\n', 1 + (before.rtakeWhile (· ≠ '\n')).length⟩) ∧
    StrictMonoOn (fun offset => (position source offset).key) {offset | Text.Boundary source offset} ∧
    (∀ k, (lineText? source k).isSome ↔ 1 ≤ k ∧ k ≤ lineCount source) ∧
    ∀ k text, lineText? source k = some text → ∃ piece, (source.splitOn '\n')[k - 1]? = some piece ∧
      (piece = text ++ ['\r'] ∨ piece = text ∧ piece.getLast? ≠ some '\r') := by
  refine ⟨?_, strictMonoOn_position source, lineText?_isSome_iff source, ?_⟩
  · rintro before after rfl
    rw [position_append, positionAfter, Nat.add_comm 1, Nat.add_comm 1]
  · intro k text h
    obtain ⟨k, rfl⟩ : ∃ k', k = k' + 1 :=
      Nat.exists_eq_add_of_le' ((lineText?_isSome_iff source k).1 (h ▸ rfl)).1
    rw [lineText?_eq, Option.map_eq_some_iff] at h
    obtain ⟨piece, hpiece, rfl⟩ := h
    exact ⟨piece, hpiece, stripReturn_cases piece⟩

/-- A place on the newline behind a carriage return, the line it ends, and the empty line at the end. -/
theorem lines_exact_crlf :
    let source := "é\r\nb\n".toList
    position source 3 = ⟨1, 3⟩ ∧ (position source 3).key < (position source 4).key ∧
      (lineText? source 3).isSome ∧ lineText? source 1 = some ['é'] ∧
      ∃ piece, (source.splitOn '\n')[0]? = some piece ∧
        (piece = ['é'] ++ ['\r'] ∨ piece = ['é'] ∧ piece.getLast? ≠ some '\r') := by
  intro source
  obtain ⟨hposition, hmono, hsome, htext⟩ := lines_exact source
  have hfirst : lineText? source 1 = some ['é'] := by decide
  exact ⟨hposition ['é', '\r'] ['\n', 'b', '\n'] rfl,
    hmono ⟨['é', '\r'], ['\n', 'b', '\n'], rfl, rfl⟩ ⟨['é', '\r', '\n'], ['b', '\n'], rfl, rfl⟩ (by decide),
    (hsome 3).2 (by decide), hfirst, htext 1 ['é'] hfirst⟩

end Source

end PegFront
