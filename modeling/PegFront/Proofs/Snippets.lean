import PegFront.Diagnostic
import PegFront.Proofs.LineTexts
import PegFront.Proofs.Link

/-!
# Carets under an error

A short report shows the line its error starts on and puts carets under the part of the span on this line. The
columns before the carets and under them are worked out backwards, from a column and from the text of a line that
has lost its carriage return. A run of these steps that stops where a number is taken from a smaller one, or a text
is cut inside a char, never stops (`snippet_marks_span`).
-/

namespace PegFront

/-! ## Parts of a text in a span -/

namespace Span

/-- The chars of a text in the span, where the text begins at an offset. -/
def part (s : Span) (offset : Nat) : List Char → List Char
  | [] => []
  | c :: cs =>
    let rest := s.part (offset + c.utf8Size) cs
    if s.contains offset then c :: rest else rest

variable {s : Span} {offset : Nat} {text : List Char}

theorem part_append (s : Span) (offset : Nat) (text rest : List Char) :
    s.part offset (text ++ rest) = s.part offset text ++ s.part (offset + Text.byteLength text) rest := by
  induction text generalizing offset with
  | nil => rfl
  | cons c text ih =>
    simp only [List.cons_append, part, ih, Text.byteLength, Nat.add_assoc]
    split <;> rfl

theorem part_of_inside (hstart : s.start ≤ offset) (hstop : offset + Text.byteLength text ≤ s.stop) :
    s.part offset text = text := by
  induction text generalizing offset with
  | nil => rfl
  | cons c text ih =>
    have hc := c.utf8Size_pos
    rw [Text.byteLength] at hstop
    have hin : s.contains offset = true := by
      rw [contains, Bool.and_eq_true, decide_eq_true_iff, decide_eq_true_iff]
      omega
    rw [part, if_pos hin, ih (by omega) (by omega)]

theorem part_of_outside (h : offset + Text.byteLength text ≤ s.start ∨ s.stop ≤ offset) :
    s.part offset text = [] := by
  induction text generalizing offset with
  | nil => rfl
  | cons c text ih =>
    have hc := c.utf8Size_pos
    rw [Text.byteLength] at h
    have hout : ¬ s.contains offset = true := by
      rw [contains, Bool.and_eq_true, decide_eq_true_iff, decide_eq_true_iff]
      omega
    rw [part, if_neg hout, ih (by omega)]

theorem part_prefix (h : s.start ≤ offset) : s.part offset text <+: text := by
  induction text generalizing offset with
  | nil => exact List.prefix_rfl
  | cons c text ih =>
    by_cases hstop : s.stop ≤ offset
    · rw [part_of_outside (.inr hstop)]
      exact List.nil_prefix
    · have hin : s.contains offset = true := by
        rw [contains, Bool.and_eq_true, decide_eq_true_iff, decide_eq_true_iff]
        omega
      rw [part, if_pos hin, List.prefix_cons_inj]
      exact ih (Nat.le_add_right_of_le h)

/-- Of a text that stands where the span starts, the span has what it has in common with it. -/
theorem slice?_part {before within after : List Char} (hstart : Text.byteLength before = s.start)
    (hstop : s.start + Text.byteLength within = s.stop) (h : text <+: within ++ after) :
    Text.slice? (before ++ (within ++ after)) s.start (min s.stop (s.start + Text.byteLength text)) =
      some (s.part s.start text) := by
  rcases List.prefix_or_prefix_of_prefix h (List.prefix_append within after) with ⟨more, rfl⟩ | ⟨more, rfl⟩
  · rw [Text.byteLength_append] at hstop
    rw [part_of_inside le_rfl (by omega), Nat.min_eq_right (by omega)]
    exact Text.slice?_eq_some_iff.2 ⟨before, more ++ after, by simp, hstart, rfl⟩
  · rw [Text.byteLength_append, part_append, part_of_inside le_rfl hstop.le, part_of_outside (.inr hstop.ge),
      List.append_nil, Nat.min_eq_left (by omega)]
    exact Text.slice?_eq_some_iff.2 ⟨before, after, rfl, hstart, hstop⟩

end Span

/-! ## Lines in a source -/

namespace Source

/-- A line of a source, its number and the offset it begins at: it stands between two newlines, or the ends. -/
structure LineAt (source : List Char) (number first : Nat) (line : List Char) : Prop where
  cut : ∃ before after, source = before ++ (line ++ after) ∧ Text.byteLength before = first ∧
    before.count '\n' + 1 = number ∧ (∀ c ∈ before.getLast?, c = '\n') ∧ ∀ c ∈ after.head?, c = '\n'
  flat : '\n' ∉ line

/-- The line around a place. -/
theorem lineAt_append (before after : List Char) :
    LineAt (before ++ after) (before.count '\n' + 1) (Text.byteLength (before.rdropWhile (· ≠ '\n')))
      (before.rtakeWhile (· ≠ '\n') ++ after.takeWhile (· ≠ '\n')) := by
  have hbefore : before.rdropWhile (· ≠ '\n') ++ before.rtakeWhile (· ≠ '\n') = before :=
    List.rdropWhile_append_rtakeWhile
  have hlead : '\n' ∉ before.rtakeWhile (· ≠ '\n') := by
    intro h
    have := List.mem_rtakeWhile_imp h
    simp at this
  have htail : '\n' ∉ after.takeWhile (· ≠ '\n') := by
    intro h
    have := List.mem_takeWhile_imp h
    simp at this
  refine ⟨⟨before.rdropWhile (· ≠ '\n'), after.dropWhile (· ≠ '\n'), ?_, rfl, ?_, ?_, ?_⟩, ?_⟩
  · rw [List.append_assoc, List.takeWhile_append_dropWhile, ← List.append_assoc, hbefore]
  · conv_rhs => rw [← hbefore, List.count_append, List.count_eq_zero.2 hlead]
  · intro c hc
    obtain ⟨hne, rfl⟩ := List.mem_getLast?_eq_getLast hc
    have := List.rdropWhile_last_not _ _ hne
    simpa using this
  · intro c hc
    have := List.head?_dropWhile_not (· ≠ '\n') after
    rw [hc] at this
    simpa using this
  · rw [List.mem_append]
    exact fun h => h.elim hlead htail

theorem LineAt.lineText? {source line : List Char} {number first : Nat} (h : LineAt source number first line) :
    lineText? source number = some (stripReturn line) := by
  obtain ⟨before, after, rfl, -, rfl, hbefore, hafter⟩ := h.cut
  have hline : ((line ++ after).splitOn '\n')[0]? = some line := by
    cases after with
    | nil =>
      rw [List.append_nil, List.splitOn_eq_singleton h.flat]
      rfl
    | cons c after =>
      obtain rfl : c = '\n' := hafter c rfl
      rw [List.splitOn_append_cons_self_of_not_mem h.flat]
      rfl
  rw [lineText?_eq]
  rcases List.eq_nil_or_concat' before with rfl | ⟨front, c, rfl⟩
  · exact congrArg (Option.map stripReturn) hline
  · obtain rfl : c = '\n' := hbefore c List.getLast?_concat
    have hnumber : (front ++ ['\n']).count '\n' = (front.splitOn '\n').length := by
      rw [length_splitOn, lineCount, length_lineStarts, List.count_append]
      rfl
    rw [← List.append_cons, List.splitOn_append_cons_self, hnumber, List.getElem?_append_right le_rfl, Nat.sub_self,
      hline]
    rfl

end Source

/-! ## Steps that may stop -/

/-- What stops a program: a number taken from a smaller one, or a text cut inside a char or past its end. -/
inductive Panic where
  | underflow (m n : Nat)
  | cut (start stop : Nat)
deriving DecidableEq, Repr

namespace Panic

def sub (m n : Nat) : Except Panic Nat :=
  if n ≤ m then .ok (m - n) else .error (.underflow m n)

def slice (cs : List Char) (start stop : Nat) : Except Panic (List Char) :=
  match Text.slice? cs start stop with
  | some text => .ok text
  | none => .error (.cut start stop)

theorem sub_of_le {m n : Nat} (h : n ≤ m) : sub m n = .ok (m - n) := if_pos h

theorem eq_of_sub {m n k : Nat} (h : sub m n = .ok k) : m - n = k := by
  unfold sub at h
  split at h
  · exact Except.ok.inj h
  · cases h

theorem slice_eq_ok {cs text : List Char} {start stop : Nat} :
    slice cs start stop = .ok text ↔ Text.slice? cs start stop = some text := by
  unfold slice
  cases Text.slice? cs start stop with
  | none => exact ⟨nofun, nofun⟩
  | some text' => rw [Except.ok.injEq, Option.some.injEq]

end Panic

open Panic

/-- Where the text of a line ends, before its newline or at the end, with its steps checked. -/
def Source.lineStopChecked (source : List Char) (line : Nat) : Except Panic Nat :=
  match (lineStarts source)[line]? with
  | some next => sub next 1
  | none => .ok (Text.byteLength source)

/-- `lineText?` with its steps checked. -/
def Source.lineTextChecked (source : List Char) (line : Nat) : Except Panic (Option (List Char)) :=
  if 1 ≤ line then
    match (lineStarts source)[line - 1]? with
    | none => .ok none
    | some start => do
      let stop ← lineStopChecked source line
      let text ← slice source start stop
      return some (stripReturn text)
  else .ok none

/-- `snippet?` with its steps checked. -/
def ParseError.snippetChecked (columns : List Char → Nat) (e : ParseError) (source : List Char) :
    Except Panic (Option Snippet) :=
  match e.origin with
  | none => .ok none
  | some origin => do
    match ← Source.lineTextChecked source origin.position.line with
    | none => return none
    | some text =>
      let before := text.take (← sub origin.position.column 1)
      let lineStart ← sub origin.span.start (Text.byteLength before)
      let lineEnd := lineStart + Text.byteLength text
      let covered ← slice source origin.span.start (min origin.span.stop lineEnd)
      let shown ← slice text 0 (Text.byteLength before)
      return some {
        line := origin.position.line
        text := text
        indent := columns shown
        width := max (columns covered) 1 }

theorem Source.lineStopChecked_eq (source : List Char) (line : Nat) : lineStopChecked source (line + 1) =
    .ok (((lineStarts source)[line + 1]?.map (· - 1)).getD (Text.byteLength source)) := by
  unfold lineStopChecked
  cases hnext : (lineStarts source)[line + 1]? with
  | none => rfl
  | some next => exact sub_of_le (lt_of_mem_lineStartsFrom (List.mem_of_getElem? hnext)).1

/-- The steps to the text of a line never stop. -/
theorem Source.lineTextChecked_eq (source : List Char) (line : Nat) :
    lineTextChecked source line = .ok (lineText? source line) := by
  cases line with
  | zero => rfl
  | succ k =>
    rw [lineTextChecked, if_pos (Nat.le_add_left 1 k), Nat.add_sub_cancel, lineStopChecked_eq]
    cases hstart : (lineStarts source)[k]? with
    | none =>
      rw [lineText?_succ, hstart]
      rfl
    | some start =>
      -- There is a line with this number, so the cut that gives its text is one.
      have hsome := (lineText?_isSome_iff source (k + 1)).2
        ⟨Nat.le_add_left 1 k, Nat.succ_le_of_lt (List.getElem?_eq_some_iff.1 hstart).1⟩
      rw [lineText?_succ, hstart, Option.bind_some] at hsome ⊢
      rw [Option.isSome_map] at hsome
      obtain ⟨text, htext⟩ := Option.isSome_iff_exists.1 hsome
      show (slice source start _ >>= _) = _
      rw [slice_eq_ok.2 htext, htext]
      rfl

theorem Text.slice?_take (text : List Char) (n : Nat) :
    slice? text 0 (byteLength (text.take n)) = some (text.take n) :=
  slice?_eq_some_iff.2 ⟨[], text.drop n, (List.take_append_drop n text).symm, rfl, Nat.zero_add _⟩

namespace ParseError

variable {columns : List Char → Nat} {e : ParseError} {source : List Char}

/-- Where no step stops, checking them changes nothing. -/
theorem snippet?_of_checked {r : Option Snippet} (h : e.snippetChecked columns source = .ok r) :
    e.snippet? columns source = r := by
  unfold snippetChecked at h
  unfold snippet?
  cases horigin : e.origin with
  | none =>
    rw [horigin] at h
    exact Except.ok.inj h
  | some origin =>
    rw [horigin] at h
    obtain ⟨text?, htext, h⟩ := Except.bind_eq_ok h
    rw [Source.lineTextChecked_eq, Except.ok.injEq] at htext
    show Option.bind _ _ = _
    rw [Option.bind_some, htext]
    cases text? with
    | none => exact Except.ok.inj h
    | some text =>
      obtain ⟨n, hn, h⟩ := Except.bind_eq_ok h
      obtain ⟨lineStart, hlineStart, h⟩ := Except.bind_eq_ok h
      obtain ⟨covered, hcovered, h⟩ := Except.bind_eq_ok h
      obtain ⟨shown, hshown, hsome⟩ := Except.bind_eq_ok h
      obtain rfl := eq_of_sub hn
      obtain rfl := eq_of_sub hlineStart
      rw [slice_eq_ok] at hcovered hshown
      rw [Text.slice?_take, Option.some.injEq] at hshown
      rw [← Except.ok.inj hsome, ← hshown]
      show some _ = some _
      rw [hcovered]
      rfl

/-- No step stops where the shown line begins with a text `left` that ends up to the start of the span, and the
span is cut off where the rest of the line ends. -/
theorem snippetChecked_located (columns : List Char → Nat) (cause : Cause) (phase file : String) {span : Span}
    {left right covered : List Char} {number n : Nat} (hposition : Source.position source span.start = ⟨number, n + 1⟩)
    (htext : Source.lineText? source number = some (left ++ right)) (htake : (left ++ right).take n = left)
    (hleft : Text.byteLength left ≤ span.start)
    (hcovered : Text.slice? source span.start (min span.stop (span.start + Text.byteLength right)) = some covered) :
    (located cause phase file source span).snippetChecked columns source =
      .ok (some ⟨number, left ++ right, columns left, max (columns covered) 1⟩) := by
  have hend : span.start - Text.byteLength left + Text.byteLength (left ++ right) =
      span.start + Text.byteLength right := by
    rw [Text.byteLength_append]
    omega
  have hshown : slice (left ++ right) 0 (Text.byteLength left) = .ok left :=
    slice_eq_ok.2 (Text.slice?_eq_some_iff.2 ⟨[], right, rfl, rfl, Nat.zero_add _⟩)
  unfold snippetChecked located
  simp only [hposition, Source.lineTextChecked_eq, htext, sub_of_le (Nat.le_add_left 1 n), Nat.add_sub_cancel, htake,
    sub_of_le hleft, hend, slice_eq_ok.2 hcovered, hshown, bind, Except.bind, pure, Except.pure]

end ParseError

/-! ## What a snippet shows -/

theorem Source.stripReturn_prefix (line : List Char) : stripReturn line <+: line := by
  rcases stripReturn_cases line with h | ⟨h, -⟩
  · exact ⟨['\r'], h.symm⟩
  · exact ⟨[], h ▸ List.append_nil _⟩

/-- What is shown of a line: `left` of the `lead` before the start of a span, and `right` from there on. -/
structure Halves (lead left right : List Char) : Prop where
  begins : left <+: lead
  whole : left = lead ∨ right = []

namespace Halves

variable {lead left right : List Char} {first : Nat} {span : Span}

/-- A beginning of two texts shows all of the first one if it reaches the second. -/
theorem exists_of_prefix {text tail : List Char} (h : text <+: lead ++ tail) :
    ∃ left right, text = left ++ right ∧ right <+: tail ∧ Halves lead left right := by
  rcases List.prefix_or_prefix_of_prefix h (List.prefix_append lead tail) with hlead | ⟨right, rfl⟩
  · exact ⟨text, [], (List.append_nil _).symm, List.nil_prefix, hlead, .inr rfl⟩
  · exact ⟨lead, right, rfl, (List.prefix_append_right_inj lead).1 h, List.prefix_rfl, .inl rfl⟩

theorem take (h : Halves lead left right) : (left ++ right).take lead.length = left := by
  rcases h.whole with rfl | rfl
  · exact List.take_left
  · rw [List.append_nil, List.take_of_length_le h.begins.length_le]

theorem byteLength_le (h : Halves lead left right) : Text.byteLength left ≤ Text.byteLength lead := by
  obtain ⟨more, rfl⟩ := h.begins
  rw [Text.byteLength_append]
  exact Nat.le_add_right _ _

theorem part_before (h : Halves lead left right) (hfirst : first + Text.byteLength lead = span.start) :
    Span.part ⟨span.file, first, span.start⟩ first (left ++ right) = left := by
  have hinside : first + Text.byteLength left ≤ span.start := by
    have := h.byteLength_le
    omega
  rw [Span.part_append, Span.part_of_inside (s := ⟨span.file, first, span.start⟩) le_rfl hinside]
  rcases h.whole with rfl | rfl
  · rw [Span.part_of_outside (.inr hfirst.ge), List.append_nil]
  · exact List.append_nil left

theorem part_span (h : Halves lead left right) (hfirst : first + Text.byteLength lead = span.start) :
    span.part first (left ++ right) = span.part span.start right := by
  have hle := h.byteLength_le
  rw [Span.part_append, Span.part_of_outside (.inl (by omega)), List.nil_append]
  rcases h.whole with rfl | rfl
  · rw [hfirst]
  · rfl

end Halves

/-- A snippet shows the line at `first` that a span starts on, without the carriage return the line may end in. The
columns before the carets are those of what is shown before the span, the columns under them those of what is shown
of the span, but at least one. -/
structure Snippet.Marks (columns : List Char → Nat) (source : List Char) (span : Span) (s : Snippet) (first : Nat)
    (line : List Char) : Prop where
  lineAt : Source.LineAt source s.line first line
  start_mem : first ≤ span.start ∧ span.start ≤ first + Text.byteLength line
  text : line = s.text ++ ['\r'] ∨ line = s.text ∧ line.getLast? ≠ some '\r'
  indent : s.indent = columns (Span.part ⟨span.file, first, span.start⟩ first s.text)
  width : s.width = max 1 (columns (span.part first s.text))
  inside : Span.part ⟨span.file, first, span.start⟩ first s.text ++ span.part first s.text <+: s.text

/-- For a span between two places of a source, no step to the snippet of an error about it stops, and the carets stand
under the part of the span on the line it starts on. -/
theorem snippet_marks_span (columns : List Char → Nat) (cause : Cause) (phase file : String) {source : List Char}
    {span : Span} (hle : span.start ≤ span.stop) (hstart : Text.Boundary source span.start)
    (hstop : Text.Boundary source span.stop) :
    let e := ParseError.located cause phase file source span
    ∃ s first line, e.snippetChecked columns source = .ok (some s) ∧ e.snippet? columns source = some s ∧
      s.Marks columns source span first line := by
  intro e
  obtain ⟨before, rest, rfl, hbefore⟩ := hstart
  obtain ⟨upto, after, hupto, hstop⟩ := hstop
  obtain ⟨within, rfl, rfl⟩ := Text.exists_append_of_byteLength_le hupto (hbefore ▸ hstop ▸ hle)
  rw [Text.byteLength_append, hbefore] at hstop
  let lead := before.rtakeWhile (· ≠ '\n')
  let tail := (within ++ after).takeWhile (· ≠ '\n')
  let first := Text.byteLength (before.rdropWhile (· ≠ '\n'))
  have hlead : before.rdropWhile (· ≠ '\n') ++ lead = before := List.rdropWhile_append_rtakeWhile
  have hfirst : first + Text.byteLength lead = span.start := by
    rw [← Text.byteLength_append, hlead, hbefore]
  have hline := Source.lineAt_append before (within ++ after)
  have hposition := hbefore ▸ Source.position_append before (within ++ after)
  obtain ⟨left, right, htext, hright, hhalves⟩ := Halves.exists_of_prefix (Source.stripReturn_prefix (lead ++ tail))
  have hchecked := ParseError.snippetChecked_located columns cause phase file hposition
    (hline.lineText?.trans (congrArg some htext)) hhalves.take
    (hhalves.byteLength_le.trans (hfirst ▸ Nat.le_add_left _ _))
    (Span.slice?_part hbefore hstop (hright.trans (List.takeWhile_prefix _)))
  refine ⟨_, first, lead ++ tail, hchecked, ParseError.snippet?_of_checked hchecked, ⟨hline, ?_, ?_, ?_, ?_, ?_⟩⟩
  · rw [Text.byteLength_append]
    omega
  · rw [← htext]
    exact Source.stripReturn_cases _
  · rw [hhalves.part_before hfirst]
  · rw [hhalves.part_span hfirst, Nat.max_comm]
  · rw [hhalves.part_before hfirst, hhalves.part_span hfirst, List.prefix_append_right_inj]
    exact Span.part_prefix le_rfl

/-- A span from behind a char of the second line into the third one. -/
theorem snippet_marks_span_crlf :
    let source := "x\r\nyé z\r\nw\n".toList
    let span : Span := ⟨0, 4, 11⟩
    let s : Snippet := ⟨2, "yé z".toList, 1, 3⟩
    (ParseError.located (.missingValue "S") "parser" "f" source span).snippet? List.length source = some s ∧
      ∃ first line, s.Marks List.length source span first line := by
  intro source span s
  obtain ⟨s', first, line, -, hs', hmarks⟩ :=
    @snippet_marks_span List.length (.missingValue "S") "parser" "f" source span (by decide)
      ⟨"x\r\ny".toList, "é z\r\nw\n".toList, rfl, rfl⟩ ⟨"x\r\nyé z\r\nw".toList, "\n".toList, rfl, rfl⟩
  have hs : (ParseError.located (.missingValue "S") "parser" "f" source span).snippet? List.length source = some s := by
    decide
  cases hs'.symm.trans hs
  exact ⟨hs, first, line, hmarks⟩

/-- A span that starts on the newline behind a carriage return: one caret behind the line. -/
example : (ParseError.located (.missingValue "S") "parser" "f" "ab\r\nc".toList ⟨0, 3, 5⟩).snippet? List.length
    "ab\r\nc".toList = some ⟨1, ['a', 'b'], 2, 1⟩ := by decide

end PegFront
