import PegFront.Proofs.Cminor.Expressions
import PegFront.Proofs.Cminor.Moving

/-!
# Leading layout

Blanks and closed comments before a source do not matter: the skip rule passes over them first, and from there on the
two parses stand at the same place of the source. If a comment at the start of the source is not closed, both fail in
the skip rule, with the same error at the end of the text.
-/

namespace PegFront

namespace Cminor

/-! ## Layouts -/

/-- Blanks, comments that are closed, and lines of comment with their ends. -/
inductive Layout : List Char → Prop
  | nil : Layout []
  | blank {ch p} (hch : Text.isBlank ch = true) (hp : Layout p) : Layout (ch :: p)
  | line {x ch p} (hx : ∀ c ∈ x, c ≠ '\n' ∧ c ≠ '\r') (hch : ch = '\n' ∨ ch = '\r') (hp : Layout p) :
      Layout ('/' :: '/' :: (x ++ ch :: p))
  | block {x p} (hx : ¬ ['*', '/'] <:+: x ++ ['*']) (hp : Layout p) : Layout ('/' :: '*' :: (x ++ '*' :: '/' :: p))

/-- A layout is passed over before everything. -/
theorem Layout.afterGap {p : List Char} (hp : Layout p) (t : List Char) : afterGap (p ++ t) = Cminor.afterGap t := by
  induction hp with
  | nil => rfl
  | blank hch _ ih => exact (passGap_blank hch _).trans ih
  | @line x ch p hx hch _ ih =>
    have hline : ∀ c ∈ x, inLine.accepts c = true := by
      intro c hc
      simp [inLine_accepts, hx c hc]
    show passGap .line (x ++ ch :: p ++ t) = _
    rw [List.append_assoc, passGap_line hline, List.cons_append, passGap_line_cons, if_pos (by simpa using hch)]
    exact ih
  | @block x p hx _ ih =>
    show passGap .block (x ++ '*' :: '/' :: p ++ t) = _
    rw [List.append_assoc]
    exact (passGap_block hx (p ++ t)).trans ih

/-! ## Parses behind a layout -/

theorem whole_behind (front text : List Char) (fileIndex : Nat) (file : String) :
    (Input.whole text fileIndex file).behind front = .whole (front ++ text) fileIndex file := by
  simp only [Input.whole, Input.behind, Text.byteLength_append, Input.mk.injEq, true_and]
  omega

/-- Something that moves the texts and values of a source behind a layout. -/
def behind (front source : String) (options : Options) : Displacement Value where
  front := front.toList
  input := .whole source.toList options.fileIndex options.file
  move := Value.shift (Text.byteLength front.toList)

section
variable {front source : String} {options : Options} {g : Grammar} {fuel fuel' : Nat}

theorem unclosed_carries : (behind front source options).Carries (unclosed (.whole source.toList options.fileIndex options.file))
    (unclosed (.whole (front ++ source).toList options.fileIndex options.file)) := by
  let i : Input := .whole source.toList options.fileIndex options.file
  have hrelates : (behind front source options).Relates (fun _ _ => True) ⟨.new i, .empty, .empty⟩
      ⟨{ Scanner.new (i.behind front.toList) with
        cursor := (Scanner.new i).cursor.shift (Text.byteLength front.toList) }, .empty, .empty⟩ :=
    ⟨rfl, rfl, rfl, rfl, rfl, rfl, ⟨rfl, .inr ⟨rfl, rfl, rfl⟩⟩, rfl, trivial⟩
  have hcarries := hrelates.expectationFailure (Pattern.text "*/").describe i.stop
  have hbehind : i.behind front.toList = .whole (front ++ source).toList options.fileIndex options.file := by
    rw [whole_behind, String.toList_append]
  rw [Scanner.expectationFailure_input, Scanner.expectationFailure_input] at hcarries
  rw [← hbehind]
  exact hcarries

/-- After the first skip the parses stand at the same place. -/
theorem skip_meets (hp : Layout front.toList) (hg : g.skip = blanks) {stack stack' : Stack Value}
    (hstack : stack' = stack.mapValues (Value.shift (Text.byteLength front.toList)))
    (hends : (outcome (Engine.skip (Engine.invoke table fuel')) (Domain.startState g (front ++ source) options stack')).1 ≠
      .error .exhausted) :
    (behind front source options).Meets (fun _ _ => True) Eq
      (outcome (Engine.skip (Engine.invoke table fuel)) (Domain.startState g source options stack))
      (outcome (Engine.skip (Engine.invoke table fuel')) (Domain.startState g (front ++ source) options stack')) := by
  have hgap : afterGap (front ++ source).toList = afterGap source.toList := by
    rw [String.toList_append]
    exact hp.afterGap _
  have hat := hg ▸ at_startState g table source options stack
  have hat' := hg ▸ at_startState g table (front ++ source) options stack'
  have hfirst := wp_skip (w := ⟨table, options.file, options.fileIndex⟩) rfl hat fuel
  have hsecond := wp_skip (w := ⟨table, options.file, options.fileIndex⟩) rfl hat' fuel'
  rw [hgap] at hsecond
  rcases hout : outcome (Engine.skip (Engine.invoke table fuel)) (Domain.startState g source options stack)
    with ⟨e | ⟨⟩, t⟩
  · rcases wp_error hfirst hout with rfl | ⟨hnone, rfl⟩
    · exact .exhausted
    · rcases hout' : outcome (Engine.skip (Engine.invoke table fuel'))
        (Domain.startState g (front ++ source) options stack') with ⟨e' | ⟨⟩, t'⟩
      · rcases wp_error hsecond hout' with rfl | ⟨-, rfl⟩
        · exact absurd (congrArg Prod.fst hout') hends
        · exact .error unclosed_carries
      · obtain ⟨d', hd', -⟩ := wp_ok hsecond hout'
        cases hnone.symm.trans hd'
  · obtain ⟨d, hd, ht, hfar, hexp⟩ := wp_ok hfirst hout
    rcases hout' : outcome (Engine.skip (Engine.invoke table fuel'))
      (Domain.startState g (front ++ source) options stack') with ⟨e' | ⟨⟩, t'⟩
    · rcases wp_error hsecond hout' with rfl | ⟨hnone, -⟩
      · exact absurd (congrArg Prod.fst hout') hends
      · cases hnone.symm.trans hd
    · obtain ⟨d', hd', ht', hfar', hexp'⟩ := wp_ok hsecond hout'
      have hrest : d'.rest = d.rest := Option.some.inj (hd'.symm.trans hd)
      have hinput : t.scanner.input = .whole source.toList options.fileIndex options.file := ht.input
      have hinput' : t'.scanner.input = .whole (front ++ source).toList options.fileIndex options.file := ht'.input
      have hoffset : d'.offset = d.offset + Text.byteLength front.toList := by
        have hstop := ht.place.offset_add
        have hstop' := ht'.place.offset_add
        rw [hinput] at hstop
        rw [hinput', hrest] at hstop'
        simp only [Input.whole, String.toList_append, Text.byteLength_append] at hstop hstop'
        omega
      refine .ok rfl ⟨hinput, ?_, ?_, ?_, ?_, ?_, ⟨?_, .inr ⟨hfar, hfar', hexp⟩⟩, ?_, trivial⟩
      · rw [hinput', String.toList_append]
        exact (whole_behind _ _ _ _).symm
      · rw [ht'.cursor, ht.cursor]
        obtain ⟨offset', rest'⟩ := d'
        subst hrest hoffset
        rfl
      · exact ht'.skipRule.trans ht.skipRule.symm
      · exact ht'.tokenDepth.trans ht.tokenDepth.symm
      · exact ht'.skipping.trans ht.skipping.symm
      · exact hexp'.trans hexp.symm
      · rw [ht'.stack, ht.stack]
        exact hstack

end

/-- A parse does not depend on the session. -/
theorem parse_session (kind : SourceKind) (source : String) (options : Options) (session : Session Value) :
    (parse kind source options session).1 = (parse kind source options {}).1 := by
  obtain ⟨d, g, rule, hd, -, hg, -⟩ := exists_entry kind
  have hsame := ((Registry.linked (link_of_domain hd)).parseIn (List.mem_of_find?_eq_some hg) source options
    kind.startArgs session).1
  rw [parse_eq hd, parse_eq hd]
  simp only [parseWith, hg]
  generalize d.parseIn g source options kind.startArgs session = r at hsame
  generalize d.parseIn g source options kind.startArgs {} = r' at hsame
  obtain ⟨o, session⟩ := r
  obtain ⟨o', session'⟩ := r'
  obtain rfl : o = o' := hsame
  rcases o with e | _ | v <;> rfl

/-- What a layout does to an error. -/
structure ErrorBehind (n : Nat) (e e' : ParseError) : Prop where
  cause : e'.cause = e.cause
  phase : e'.phase = e.phase
  help : e'.help = e.help
  file : e'.origin.map (·.file) = e.origin.map (·.file)
  span : e'.origin.map (·.span) = e.origin.map (·.span.shift n)

theorem errorBehind_of_carries {D : Displacement Value} {e e' : ParseError} (h : D.Carries e e') :
    ErrorBehind D.distance e e' := by
  obtain ⟨cause, span, help, rfl, rfl⟩ := h
  exact ⟨rfl, rfl, rfl, rfl, rfl⟩

theorem fuelOf_mono {d : Domain Value} (front source : String) : d.fuelOf source ≤ d.fuelOf (front ++ source) := by
  unfold Domain.fuelOf Engine.fuelFor
  rw [String.toList_append, Text.byteLength_append]
  exact Nat.add_le_add_left (Nat.mul_le_mul_left _ (by omega)) _

/-- The parses of a source and of the source behind a layout, side by side. -/
theorem parse_meets (front source : String) (hp : Layout front.toList) (kind : SourceKind) (options : Options) :
    ∃ o o' : Except Stop (Option Value) × State Value, (parse kind source options {}).1.map some = o.1 ∧
      (parse kind (front ++ source) options {}).1.map some = o'.1 ∧
      (behind front source options).Meets (fun _ _ => True)
        (fun v v' => v' = v.map (Value.shift (Text.byteLength front.toList))) o o' := by
  obtain ⟨d, g, rule, hd, hrules, hg, hstart, hskip, hrule, hgrounded, harity, -⟩ := exists_entry kind
  let D := behind front source options
  have hk : ∀ id, D.Tracks (fun _ _ => True) Eq (Engine.invoke d.rules (d.fuelOf source) id)
      (Engine.invoke d.rules (d.fuelOf (front ++ source)) id) :=
    fun id => Displacement.Tracks.invoke (domain_moving hd) (fuelOf_mono front source) _ id
  have hends := Progress.ends_runStart hgrounded (Registry.linked (link_of_domain hd)).rules
    (Array.getElem?_eq_some_iff.1 hrule).1 rule (front ++ source) options (Stack.empty.pushAll kind.startArgs) 0
    (Progress.fuelFor_le_fuelOf d _)
  have hfirst : (outcome (Engine.skip (Engine.invoke d.rules (d.fuelOf (front ++ source))))
      (Domain.startState g (front ++ source) options (Stack.empty.pushAll kind.startArgs))).1 ≠ .error .exhausted := by
    intro hex
    unfold Engine.runStart Engine.matchStart at hends
    simp only [wp_bind] at hends
    exact wp_error hends (Prod.ext hex rfl) rfl
  have hargs : Stack.empty.pushAll kind.startArgs =
      (Stack.empty.pushAll kind.startArgs).mapValues (Value.shift (Text.byteLength front.toList)) := by
    cases kind <;> rfl
  have hmeets := Displacement.Tracks.runStart hk (idOf kind.startRule) rule 0
    (hrules ▸ skip_meets hp hskip hargs (hrules ▸ hfirst))
  exact ⟨_, _, parse_eq_run hd hg hstart hrule harity source options {},
    parse_eq_run hd hg hstart hrule harity (front ++ source) options {}, hmeets⟩

/-- Leading layout does not matter. A source behind blanks, closed comments and lines of comment parses if and only if
it parses by itself, to the same tree further on; if it does not, the error is the same further on. -/
theorem parse_behind_layout (front source : String) (hp : Layout front.toList) (kind : SourceKind) (options : Options)
    (session : Session Value) :
    (∀ v, (parse kind source options session).1 = .ok v →
      (parse kind (front ++ source) options session).1 = .ok (v.shift (Text.byteLength front.toList))) ∧
    (∀ v, (parse kind (front ++ source) options session).1 = .ok v →
      ∃ v', (parse kind source options session).1 = .ok v') ∧
    ∀ e, (parse kind source options session).1 = .error (.error e) →
      ∃ e', (parse kind (front ++ source) options session).1 = .error (.error e') ∧
        ErrorBehind (Text.byteLength front.toList) e e' := by
  obtain ⟨o, o', ho, ho', hmeets⟩ := parse_meets front source hp kind options
  have hanswers := parse_answers kind source options {}
  rw [parse_session kind source options session, parse_session kind (front ++ source) options session]
  generalize (parse kind source options {}).1 = r at ho hanswers
  generalize (parse kind (front ++ source) options {}).1 = r' at ho'
  cases hmeets with
  | @ok v v' t t' hv _ =>
    rcases r with e | w
    · cases ho
    rcases r' with e' | w'
    · cases ho'
    obtain rfl : some w = v := Except.ok.inj ho
    obtain rfl : w' = w.shift (Text.byteLength front.toList) := Option.some.inj ((Except.ok.inj ho').trans hv)
    exact ⟨by rintro _ ⟨⟩; rfl, fun _ _ => ⟨w, rfl⟩, by rintro _ ⟨⟩⟩
  | @error e e' t t' hcarries =>
    rcases r with e₁ | w
    · rcases r' with e₁' | w'
      · cases ho
        cases ho'
        refine ⟨by rintro _ ⟨⟩, by rintro _ ⟨⟩, ?_⟩
        rintro _ ⟨⟩
        exact ⟨e', rfl, errorBehind_of_carries hcarries⟩
      · cases ho'
    · cases ho
  | exhausted =>
    -- A parse never uses up its fuel.
    rcases r with e | w
    · cases ho
      cases hanswers
    · cases ho

theorem layout_comments : Layout " // c\n/* d */".toList := by
  have hblock : Layout "/* d */".toList := .block (x := " d ".toList) (by decide) .nil
  have hline : Layout "// c\n/* d */".toList := .line (x := " c".toList) (by simp) (.inl rfl) hblock
  exact .blank (by decide) hline

/-- A name behind two comments. -/
theorem parse_behind_layout_comments : ∃ v, (parse .expression "a" {} {}).1 = .ok v ∧
    (parse .expression (" // c\n/* d */" ++ "a") {} {}).1 = .ok (v.shift 13) := by
  have hreads : Reads 0 false 9 0 ['a'] _ := .name (by decide)
  have hparse : parseExpression "a" 0 "<input>" = .ok _ :=
    parseExpression_eq_ok_iff.2 ⟨[], ['a'], [], rfl, .nil, hreads.loosen (by decide), rfl⟩
  obtain ⟨v, -, haccepts⟩ := parseFile_eq_ok_iff.1 hparse
  have hv : (parse .expression "a" {} {}).1 = .ok v := (parse_eq_ok_iff .expression "a" {} {} v).2 haccepts
  exact ⟨v, hv, (parse_behind_layout " // c\n/* d */" "a" layout_comments .expression {} {}).1 v hv⟩

end Cminor

end PegFront
