import PegFront.Proofs.Faults
import PegFront.Proofs.Invariants
import PegFront.Proofs.Lines

/-!
# Errors point into the input

The place an error refers to is a part of the source it was raised on, and the line and the column it names
are those of its beginning. What makes this more than a look at the places where errors are raised is the
farthest failure, which a parse reports long after the scanner has gone back: that it is a place is an
invariant of the whole run.
-/

namespace PegFront

variable {V : Type}

/-! ## Spans as parts of a text -/

theorem Cursor.In.exists_before {c : Cursor} {text : List Char} {fileIndex : Nat} {file : String}
    (h : c.In (.whole text fileIndex file)) : ∃ before, text = before ++ c.rest ∧ Text.byteLength before = c.offset := by
  obtain ⟨before, after, htext, hbefore, hstop⟩ := Text.slice?_eq_some_iff.1 h.slice
  have htext : text = before ++ (c.rest ++ after) := htext
  have hstop : c.offset + Text.byteLength c.rest = Text.byteLength text := hstop
  have hafter : after = [] := by
    refine Text.eq_nil_of_byteLength ?_
    rw [htext, Text.byteLength_append, Text.byteLength_append, hbefore] at hstop
    omega
  rw [hafter, List.append_nil] at htext
  exact ⟨before, htext, hbefore⟩

theorem Source.position_slice {text within : List Char} {start stop : Nat}
    (h : Text.slice? text start stop = some within) :
    ∃ before after, text = before ++ within ++ after ∧ Text.byteLength before = start ∧
      Text.byteLength (before ++ within) = stop ∧ position text start = positionAfter before := by
  obtain ⟨before, after, rfl, rfl, rfl⟩ := Text.slice?_eq_some_iff.1 h
  exact ⟨before, after, (List.append_assoc ..).symm, rfl, Text.byteLength_append .., position_append ..⟩

/-- The origin is the part `within` of a source. -/
structure Origin.Covers (o : Origin) (options : Options) (before within : List Char) : Prop where
  file : o.file = options.file
  span : o.span = ⟨options.fileIndex, Text.byteLength before, Text.byteLength (before ++ within)⟩
  position : o.position = Source.positionAfter before

/-- An error that points into a source covers a part of it; if it misses a construct and no action has
reported it, the part is the char at its start, if there is one. -/
theorem Pointed.covers {text : List Char} {options : Options} {events : List (Event V)} {e : ParseError}
    (h : Pointed (.whole text options.fileIndex options.file) events e)
    (hplaced : ∀ event ∈ events, event.Placed (.whole text options.fileIndex options.file)) :
    ∃ o before within after, e.origin = some o ∧ text = before ++ within ++ after ∧
      o.Covers options before within ∧ (e.cause.expected?.isSome →
        (∃ rule name f context m, .acted rule name context m ∈ events ∧ rule.action? name = some f ∧
          (f context m).1 = .fail e.cause ∧ m.span = o.span) ∨ within = (within ++ after).take 1) := by
  cases h with
  | @action rule name f context m hmem hf hv hfile ho =>
    obtain ⟨-, -, hslice⟩ := hplaced _ hmem
    obtain ⟨before, after, htext, hstart, hstop, hposition⟩ := Source.position_slice hslice
    refine ⟨_, before, _, after, ho, htext, ⟨rfl, ?_, hposition⟩, fun _ => .inl ⟨_, _, _, _, _, hmem, hf, hv, rfl⟩⟩
    rw [hstart, hstop]
    exact congrArg (Span.mk · m.span.start m.span.stop) hfile
  | @char c hc ho =>
    obtain ⟨before, rfl, hbefore⟩ := hc.exists_before
    have hcut := List.take_append_drop 1 c.rest
    refine ⟨_, before, c.rest.take 1, c.rest.drop 1, ho, ?_, ⟨rfl, ?_, ?_⟩, fun _ => .inr ?_⟩
    · rw [List.append_assoc, hcut]
    · rw [Text.byteLength_append, hbefore]
      rfl
    · exact hbefore ▸ Source.position_append before c.rest
    · rw [hcut]
  | @between c d hc hd hle hcause ho =>
    have hslice := hc.slice_textTo hd hle
    obtain ⟨before, after, htext, hstart, hstop, hposition⟩ := Source.position_slice hslice
    refine ⟨_, before, _, after, ho, htext, ⟨rfl, ?_, hposition⟩, fun h => ?_⟩
    · rw [hstart, hstop]
      rfl
    · simp [hcause] at h

/-! ## Parses -/

/-- The farthest failure is at a place of the input. -/
theorem stable_farthest (i : Input) :
    Stable i fun p : State V × List (Event V) => i.Boundary p.1.scanner.farthest where
  state := fun t h hf _ => hf ▸ h
  skipped := fun _ h => h
  acted := fun _ _ _ _ h => h
  called := fun _ _ _ h => h
  matched := fun _ _ h => h
  hit := fun _ _ _ h => h
  miss := by
    intro p terminal hs h
    show i.Boundary (p.1.scanner.note terminal.describe).farthest
    unfold Scanner.note
    split
    · exact h
    · split
      · exact hs.offset
      · exact h

theorem Scanner.boundary_reach {s : Scanner} (hs : s.cursor.In s.input) (hf : s.input.Boundary s.farthest) :
    s.input.Boundary s.reach := by
  unfold Scanner.reach
  rcases Nat.le_total s.farthest s.offset with h | h
  · rw [Nat.max_eq_right h]
    exact hs.boundary
  · rw [Nat.max_eq_left h]
    exact hf

theorem sound_startState (g : Grammar) (source : String) (options : Options) (stack : Stack V) :
    Sound (.whole source.toList options.fileIndex options.file)
      (Domain.startState g source options stack, ([] : List (Event V))) :=
  ⟨rfl, Scanner.new_whole_in source.toList options.fileIndex options.file, nofun⟩

theorem Domain.Linked.parseIn_pointed {d : Domain V} (hd : d.Linked) {g : Grammar} (hg : g ∈ d.grammars)
    {start : RuleId} {rule : Rule V} (hstart : g.start = some start) (hrule : d.rules[start]? = some rule)
    (source : String) (options : Options) {args : List V} (ha : args.length = rule.arity) (session : Session V)
    {e : ParseError} (he : (d.parseIn g source options args session).1 = .error (.error e)) :
    Pointed (.whole source.toList options.fileIndex options.file) (d.history g source options args) e ∧
      ∀ event ∈ d.history g source options args,
        event.Placed (.whole source.toList options.fileIndex options.file) := by
  have hsound := sound_startState g source options (Stack.empty.pushAll args)
  have hbegin := hsound.cursor.boundary
  generalize hi : Input.whole source.toList options.fileIndex options.file = i at hsound hbegin ⊢
  have hrun := Upholds.matchStart (stable_farthest i)
    (Upholds.invoke (stable_farthest i) d.rules (d.fuelOf source)) start _ hsound hbegin
  obtain ⟨t, hout⟩ | ⟨m, t, hout, -, rfl⟩ :=
    hd.parseIn_error hg hstart hrule source options ha session he
  · obtain ⟨hs, -, hpoints⟩ := wp_error hrun hout
    exact ⟨hpoints e rfl, hs.events⟩
  · obtain ⟨-, hs, hfarthest⟩ := wp_ok hrun hout
    obtain rfl := hs.input
    exact ⟨.charAt (Scanner.boundary_reach hs.cursor hfarthest) rfl, hs.events⟩

/-- An error with an origin covers a part of the source, and its line and column are those of the beginning of
that part. An error that misses a construct, unless an action has reported it about its match, covers the one
char at its beginning, or nothing at the end of the source. -/
theorem errors_point_into_source {r : Registry V} {d : Domain V} (h : r.link = .ok d) {g : Grammar}
    (hg : g ∈ d.grammars) (source : String) (options : Options) (args : List V) (session : Session V)
    (e : ParseError) (o : Origin) (he : (d.parseIn g source options args session).1 = .error (.error e))
    (ho : e.origin = some o) :
    o.span.start ≤ o.span.stop ∧ o.span.stop ≤ Text.byteLength source.toList ∧
    ∃ before within after, source.toList = before ++ within ++ after ∧ o.Covers options before within ∧
      ∀ expected found, e.cause = .expectationFailure expected found →
        (∃ rule name f context m, .acted rule name context m ∈ d.history g source options args ∧
          rule.action? name = some f ∧ (f context m).1 = .fail e.cause ∧ m.span = o.span) ∨
        within = (within ++ after).take 1 := by
  have hd := Registry.linked h
  cases hstart : g.start with
  | none =>
    unfold Domain.parseIn at he
    rw [hstart] at he
    cases he
    cases ho
  | some start =>
    obtain ⟨rule, hrule⟩ := hd.start g hg start hstart
    by_cases ha : args.length = rule.arity
    · obtain ⟨hpointed, hplaced⟩ := hd.parseIn_pointed hg hstart hrule source options ha session he
      obtain ⟨o', before, within, after, ho', htext, hcovers, hchar⟩ := hpointed.covers hplaced
      cases ho.symm.trans ho'
      have hlength := congrArg Text.byteLength htext
      rw [Text.byteLength_append, Text.byteLength_append] at hlength
      refine ⟨?_, ?_, before, within, after, htext, hcovers, fun expected found hcause => ?_⟩
      · simp only [hcovers.span, Text.byteLength_append]
        omega
      · simp only [hcovers.span, Text.byteLength_append]
        omega
      · exact hchar (by rw [hcause]; rfl)
    · unfold Domain.parseIn at he
      have hbind : (some start).bind d.rule? = some rule := hrule
      rw [hstart, hbind] at he
      dsimp only at he
      rw [if_pos ha] at he
      cases he
      cases ho

/-- The place a parse that failed refers to. -/
def origin? {α : Type} : Except Stop α → Option Origin
  | .error (.error e) => e.origin
  | _ => none

theorem exists_of_origin? {α : Type} {x : Except Stop α} {o : Origin} (h : origin? x = some o) :
    ∃ e, x = .error (.error e) ∧ e.origin = some o := by
  rcases x with (e | _) | _
  · exact ⟨e, rfl, h⟩
  · cases h
  · cases h

/-- Both ways of a choice miss on the second line, after a char of two bytes, and the scanner is back at the
beginning when the parse fails. -/
theorem errors_point_into_source_after_backtracking :
    let head := Pattern.seq (.text "é") (.text "\n")
    let r : Registry Unit := {
      grammars := [{
        name := "G"
        rules := [{ name := "S", definition := .alt (.seq head (.text "a")) (.seq head (.text "b")) }]
        start := some "S" }]
      index := [("G", 0)] }
    let o : Origin := ⟨"<input>", ⟨0, 3, 5⟩, ⟨2, 1⟩⟩
    ∃ d g, r.link = .ok d ∧ d.grammars = [g] ∧
      ∃ e, ((d.parseIn g "é\nßy" {} [] {}).1 = .error (.error e) ∧ e.origin = some o) ∧
        ∃ before within after, "é\nßy".toList = before ++ within ++ after ∧ o.Covers {} before within := by
  intro head r o
  refine ⟨_, _, rfl, rfl, Exists.imp (fun e he => ⟨he, ?_⟩) (exists_of_origin? (by decide +kernel))⟩
  obtain ⟨-, -, before, within, after, htext, hcovers, -⟩ :=
    errors_point_into_source (r := r) rfl List.mem_cons_self "é\nßy" {} [] {} e o he.1 he.2
  exact ⟨before, within, after, htext, hcovers⟩

end PegFront
