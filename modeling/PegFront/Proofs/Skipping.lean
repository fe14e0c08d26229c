import PegFront.Peg.Lexical
import PegFront.Proofs.Shapes
import PegFront.Proofs.Nodes
import PegFront.Proofs.Silence
import PegFront.Proofs.Cminor.Gaps

/-!
# Skipping blanks and comments

What the rules of the lexical grammar for blanks and comments do, in every table that holds them: `Houses` says
where they stand. The skip rule passes over the gap that begins where it is applied (`skip_blanks`), and fails if
a comment in the gap is not closed. It notes nothing, and the error it raises then is about the end of the text
(`wp_skip`).
-/

namespace PegFront

/-- An error tells of the input only. -/
theorem Scanner.expectationFailure_input (s : Scanner) (expected : String) (offset : Nat) :
    s.expectationFailure expected offset = (Scanner.new s.input).expectationFailure expected offset := rfl

/-- The error about a comment that is not closed. -/
def Cminor.unclosed (i : Input) : ParseError := (Scanner.new i).expectationFailure (Pattern.text "*/").describe i.stop

theorem Cminor.unclosed_eq (i : Input) : unclosed i = .located
    (.expectationFailure (Pattern.text "*/").describe "end of file") "parse" i.file i.text
    ⟨i.fileIndex, i.stop, i.stop⟩ := by
  have hrest : (i.cursorAt i.stop).rest = [] := by
    unfold Input.cursorAt
    cases h : Text.slice? i.text i.stop i.stop with
    | none => rfl
    | some text =>
      obtain ⟨_, _, _, _, hlength⟩ := Text.slice?_eq_some_iff.1 h
      exact Text.eq_nil_of_byteLength (show Text.byteLength text = 0 by omega)
  simp only [unclosed, Scanner.expectationFailure, Scanner.report, Scanner.foundAt, Scanner.charSpanAt, Scanner.new,
    Nat.min_self, hrest]

namespace Lexical

open Cursor Cminor

variable {V : Type} {w : World V} {place : String → RuleId}

/-! ## The rules in a table -/

/-- The pattern in which every call has the place of the rule it names. -/
def aim (place : String → RuleId) (p : Pattern) : Pattern := p.mapCalls (Call.aim fun c => place c.rule)

/-- A rule of the lexical grammar, linked. -/
def linked (place : String → RuleId) (name : String) (p : Pattern) : Rule V :=
  { Rule.new name p with grammar := grammarName, definition := aim place p }

/-- The table has every rule of the lexical grammar at its place. -/
def Houses (rules : Array (Rule V)) (place : String → RuleId) : Prop :=
  ∀ {name p}, Rule.new name p ∈ (grammar : GrammarDecl V).rules → rules[place name]? = some (linked place name p)

section
variable {skip : Option RuleId} {c : Cursor} {r : Answer V} {name : String} {p : Pattern}

theorem Houses.rule (hh : Houses w.rules place) (h : Rule.new name p ∈ (grammar : GrammarDecl V).rules)
    (hd : Derives w skip (.pattern (linked place name p) (aim place p) ⟨[], none, c.offset⟩) c r) :
    Derives w skip (.rule (place name) []) c r :=
  .rule_plain (hh h) rfl rfl hd

theorem Houses.call (hh : Houses w.rules place) (h : Rule.new name p ∈ (grammar : GrammarDecl V).rules)
    {caller : Rule V} (hc : caller.preCall? name = none) {ctx : Context V}
    (hd : Derives w skip (.pattern (linked place name p) (aim place p) ⟨[], none, c.offset⟩) c r) :
    Derives w skip (.pattern caller (aim place (.rule name)) ctx) c (r.resume ctx) := by
  have ha : caller.argumentsOf ⟨name, name, 0, some (place name)⟩ ctx = [] := by simp only [Rule.argumentsOf, hc]
  exact .call_plain rfl (hh h) ha rfl rfl (hh.rule h hd)

end

/-! ## Comments -/

section
variable {c d : Cursor} {rule : Rule V} {ctx : Context V}

theorem newline_mem : Rule.new "newline" newline ∈ (grammar : GrammarDecl V).rules := by
  simp [grammar]

/-- The end of a line is passed over, if there is one. -/
theorem newline_spec (hh : Houses w.rules place) (hc : ∀ ch ∈ c.rest.head?, inLine.accepts ch = false)
    (rule : Rule V) (hp : rule.preCall? "newline" = none) (ctx : Context V) :
    ∃ d, Derives w none (.pattern rule (aim place (.opt (.rule "newline"))) ctx) c (.hit ctx d) ∧
      passGap .line c.rest = passGap .code d.rest := by
  have call : ∀ {r}, Derives w none (.pattern (linked place "newline" newline) (aim place newline)
      ⟨[], none, c.offset⟩) c r → Derives w none (.pattern rule (aim place (.rule "newline")) ctx) c (r.resume ctx) :=
    hh.call newline_mem hp
  rcases hr : c.rest with _ | ⟨ch, t⟩
  · refine ⟨c, .opt_miss (call (.alt_second (.alt_second (.text_of_no_match ?_) (.char_of_head ?_))
      (.char_of_head ?_))), by rw [hr]; rfl⟩ <;> simp [hr]
  · have hch := hc ch (by rw [hr]; rfl)
    rw [inLine_accepts, Bool.not_eq_false', Bool.or_eq_true, decide_eq_true_eq, decide_eq_true_eq] at hch
    have hline : passGap .line (ch :: t) = passGap .code t := by rw [passGap, if_pos (by simpa using hch)]
    by_cases ht : "\r\n".toList <+: c.rest
    · obtain ⟨t', ht⟩ := ht
      obtain ⟨rfl, rfl⟩ : '\r' = ch ∧ '\n' :: t' = t := by simpa [hr] using ht
      have hd : c.Spans "\r\n".toList ⟨c.offset + Text.byteLength "\r\n".toList, t'⟩ := ⟨ht.symm, rfl⟩
      exact ⟨_, .opt_hit (call (.alt_first (.alt_first (.text_of_spans hd)))),
        hline.trans (passGap_blank (by decide) t')⟩
    · have hd : c.Spans [ch] ⟨c.offset + Text.byteLength [ch], t⟩ := ⟨hr, rfl⟩
      refine ⟨⟨c.offset + Text.byteLength [ch], t⟩, ?_, hline⟩
      rcases hch with rfl | rfl
      · exact .opt_hit (call (.alt_first (.alt_second (.text_of_no_match ht) (.char_of_spans hd))))
      · exact .opt_hit (call (.alt_second (.alt_second (.text_of_no_match ht) (.char_of_head (by simp [hr])))
          (.char_of_spans hd)))

theorem lineComment_mem :
    Rule.new "line_comment" lineComment ∈ (grammar : GrammarDecl V).rules := by
  simp [grammar]

/-- Two slashes begin a comment that ends with the line. -/
theorem lineComment_spec (hh : Houses w.rules place) (hc : c.Spans ['/', '/'] d) (ctx : Context V) :
    ∃ x e, d.Spans x e ∧ passGap .line d.rest = passGap .code e.rest ∧
      Derives w none (.pattern (linked place "line_comment" lineComment) (aim place lineComment) ctx) c
        (.hit ctx e) := by
  obtain ⟨x, d₁, hx, hall, hend⟩ := exists_run inLine d
  obtain ⟨e, he, hpass⟩ := newline_spec hh hend (linked place "line_comment" lineComment) rfl ctx
  obtain ⟨y, hy⟩ := he.spans
  refine ⟨x ++ y, e, hx.trans hy, ?_,
    .token (.seq_tight (.seq_tight (.text_of_spans hc) (.many (.rounds_chars inLine hall hx hend true))) he)⟩
  rw [hx.rest, passGap_line hall, hpass]

theorem lineComment_miss (hc : ¬ ['/', '/'] <+: c.rest) :
    Derives w none (.pattern (linked place "line_comment" lineComment) (aim place lineComment) ctx) c
      (.miss ctx) :=
  .token (.seq_first (.seq_first (.text_of_no_match hc)))

theorem blockComment_mem :
    Rule.new "block_comment" blockComment ∈ (grammar : GrammarDecl V).rules := by
  simp [grammar]

/-- A char that does not close a comment. -/
def inComment : Pattern := .diff (.one .any) (.text "*/")

/-- The rounds over a comment end where it is closed, or at the end of the text. -/
theorem inComment_rounds (rule : Rule V) (ctx : Context V) (c : Cursor) (first : Bool) :
    ∃ d, Derives w none (.rounds rule inComment first ctx) c (.hit ctx d) ∧
      (d.rest = [] ∧ passGap .block c.rest = none ∨
        ∃ t, d.rest = '*' :: '/' :: t ∧ passGap .block c.rest = passGap .code t) := by
  obtain ⟨o, t⟩ := c
  induction t generalizing o first with
  | nil => exact ⟨_, .rounds_end rfl, .inl ⟨rfl, rfl⟩⟩
  | cons ch t ih =>
    have hone : (⟨o, ch :: t⟩ : Cursor).Spans [ch] ⟨o + ch.utf8Size, t⟩ := ⟨rfl, by simp [Text.byteLength]⟩
    by_cases hclose : "*/".toList <+: ch :: t
    · obtain ⟨t', ht⟩ := hclose
      obtain ⟨rfl, rfl⟩ : '*' = ch ∧ '/' :: t' = t := by simpa using ht
      have htwo : (⟨o, '*' :: '/' :: t'⟩ : Cursor).Spans "*/".toList ⟨o + 2, t'⟩ := ⟨rfl, rfl⟩
      refine ⟨_, .rounds_miss (by simp) (.skip_ite first) (.diff_excluded (.one_of_spans hone rfl)
        (.text_of_spans htwo) ?_), .inr ⟨t', rfl, rfl⟩⟩
      exact Nat.add_le_add_left (by decide) o
    · obtain ⟨d, hd, hpass⟩ := ih false (o + ch.utf8Size)
      refine ⟨d, .rounds_hit (by simp) (.skip_ite first)
        (.diff_apart (.one_of_spans hone rfl) (.text_of_no_match hclose)) hd, ?_⟩
      have hstep : passGap .block (ch :: t) = passGap .block t := by
        rw [passGap]
        rintro cs rfl rfl
        exact hclose ⟨cs, rfl⟩
      rw [hstep]
      exact hpass

/-- A slash and a star begin a comment that must be closed. -/
theorem blockComment_spec (hc : c.Spans ['/', '*'] d) (ctx : Context V) :
    (∃ x e, d.Spans x e ∧ passGap .block d.rest = passGap .code e.rest ∧
      Derives w none (.pattern (linked place "block_comment" blockComment) (aim place blockComment) ctx) c
        (.hit ctx e)) ∨
      Derives w none (.pattern (linked place "block_comment" blockComment) (aim place blockComment) ctx) c
        .stop ∧ passGap .block d.rest = none := by
  obtain ⟨d₁, hd, ⟨hend, hpass⟩ | ⟨t, ht, hpass⟩⟩ := inComment_rounds (w := w)
    (linked place "block_comment" blockComment) ctx d true
  · exact .inr ⟨.token (.seq_stop_second (.seq_tight (.text_of_spans hc) (.many hd)) .skip_none (.expect_miss (.text_of_no_match (by simp [hend])))), hpass⟩
  · have hclose : d₁.Spans "*/".toList ⟨d₁.offset + 2, t⟩ := ⟨ht, rfl⟩
    obtain ⟨x, hx⟩ := hd.spans
    exact .inl ⟨_, _, hx.trans hclose, hpass,
      .token (.seq_tight (.seq_tight (.text_of_spans hc) (.many hd)) (.expect_hit (.text_of_spans hclose)))⟩

theorem blockComment_miss (hc : ¬ ['/', '*'] <+: c.rest) :
    Derives w none (.pattern (linked place "block_comment" blockComment) (aim place blockComment) ctx) c
      (.miss ctx) :=
  .token (.seq_first (.seq_first (.text_of_no_match hc)))

/-! ## Skipping -/

def comment : Pattern := .alt (.rule "line_comment") (.rule "block_comment")

theorem comment_mem : Rule.new "comment" comment ∈ (grammar : GrammarDecl V).rules := by
  simp [grammar, comment]

/-- One step of a gap. -/
def gapPiece : Pattern := .alt (.one .space) (.rule "comment")

theorem gap_mem :
    Rule.new "spaces_and_comments" (.many1 gapPiece) ∈ (grammar : GrammarDecl V).rules := by
  simp [grammar, gapPiece]

/-- A step of a gap passes over a blank or a comment; it misses where no gap begins, and stops in a comment that
is not closed. -/
theorem gapPiece_spec (hh : Houses w.rules place) (rule : Rule V) (hp : rule.preCall? "comment" = none)
    (ctx : Context V) (c : Cursor) :
    (∃ d, Derives w none (.pattern rule (aim place gapPiece) ctx) c (.hit ctx d) ∧ d.rest.length < c.rest.length ∧
      afterGap c.rest = afterGap d.rest) ∨
    (Derives w none (.pattern rule (aim place gapPiece) ctx) c (.miss ctx) ∧ Solid c.rest) ∨
    Derives w none (.pattern rule (aim place gapPiece) ctx) c .stop ∧ afterGap c.rest = none := by
  have call : ∀ {r}, Derives w none (.pattern (linked place "comment" comment) (aim place comment) ⟨[], none, c.offset⟩) c r →
      Derives w none (.pattern rule (aim place (.rule "comment")) ctx) c (r.resume ctx) :=
    hh.call comment_mem hp
  have line : ∀ {r}, Derives w none (.pattern (linked place "line_comment" lineComment)
        (aim place lineComment) ⟨[], none, c.offset⟩) c r →
      Derives w none (.pattern (linked place "comment" comment) (aim place (.rule "line_comment")) ⟨[], none, c.offset⟩) c
        (r.resume ⟨[], none, c.offset⟩) := hh.call lineComment_mem rfl
  have block : ∀ {r}, Derives w none (.pattern (linked place "block_comment" blockComment)
        (aim place blockComment) ⟨[], none, c.offset⟩) c r →
      Derives w none (.pattern (linked place "comment" comment) (aim place (.rule "block_comment")) ⟨[], none, c.offset⟩) c
        (r.resume ⟨[], none, c.offset⟩) := hh.call blockComment_mem rfl
  rcases ht : c.rest with _ | ⟨ch, t⟩
  · refine .inr (.inl ⟨.alt_second (.one_of_head (by simp [ht])) (call (.alt_second (line (lineComment_miss ?_))
      (block (blockComment_miss ?_)))), solid_nil⟩) <;> simp [ht]
  cases hb : Text.isBlank ch with
  | true =>
    have hspan : c.Spans [ch] ⟨c.offset + Text.byteLength [ch], t⟩ := ⟨ht, rfl⟩
    exact .inl ⟨_, .alt_first (.one_of_spans hspan hb), Nat.lt_succ_self _, passGap_blank hb t⟩
  | false =>
  have hspace : Derives w none (.pattern rule (.one .space) ctx) c (.miss ctx) :=
    .one_of_head (by rw [ht]; rintro _ ⟨⟩; exact hb)
  by_cases hline : ['/', '/'] <+: c.rest
  · obtain ⟨d, hd⟩ := exists_spans hline
    obtain ⟨x, e, hx, hpass, he⟩ := lineComment_spec hh hd ⟨[], none, c.offset⟩
    refine .inl ⟨e, .alt_second hspace (call (.alt_first (line he))), ?_, ?_⟩
    · rw [← ht, (hd.trans hx).rest]; simp; omega
    · rw [← ht, hd.rest]; exact hpass
  by_cases hblock : ['/', '*'] <+: c.rest
  · obtain ⟨d, hd⟩ := exists_spans hblock
    have hno := line (lineComment_miss hline)
    obtain ⟨x, e, hx, hpass, he⟩ | ⟨he, hpass⟩ := blockComment_spec hd ⟨[], none, c.offset⟩
    · refine .inl ⟨e, .alt_second hspace (call (.alt_second hno (block he))), ?_, ?_⟩
      · rw [← ht, (hd.trans hx).rest]; simp; omega
      · rw [← ht, hd.rest]; exact hpass
    · refine .inr (.inr ⟨.alt_second hspace (call (.alt_second hno (block he))), ?_⟩)
      rw [← ht, hd.rest]; exact hpass
  · refine .inr (.inl ⟨.alt_second hspace (call (.alt_second (line (lineComment_miss hline))
      (block (blockComment_miss hblock)))), ?_⟩)
    rw [Solid, afterGap, passGap_cons, hb]
    · rfl
    · rintro rfl e he
      cases t with
      | nil => cases he
      | cons e' t =>
        cases he
        rw [ht] at hline hblock
        constructor <;> rintro rfl <;> simp at hline hblock

/-- The rounds of a gap pass over all of it, or stop in a comment that is not closed. -/
theorem gap_rounds (hh : Houses w.rules place) (rule : Rule V) (hp : rule.preCall? "comment" = none)
    (ctx : Context V) (c : Cursor) :
    (∃ d, Derives w none (.rounds rule (aim place gapPiece) false ctx) c (.hit ctx d) ∧ afterGap c.rest = some d.rest) ∨
    Derives w none (.rounds rule (aim place gapPiece) false ctx) c .stop ∧ afterGap c.rest = none := by
  induction hn : c.rest.length using Nat.strongRecOn generalizing c with
  | _ n ih =>
  by_cases hr : c.rest = []
  · exact .inl ⟨c, .rounds_end hr, by rw [hr]; rfl⟩
  obtain ⟨d, hd, hlt, hpass⟩ | ⟨hmiss, hsolid⟩ | ⟨hstop, hpass⟩ := gapPiece_spec hh rule hp ctx c
  · rw [hpass]
    obtain ⟨e, he, h⟩ | ⟨he, h⟩ := ih d.rest.length (hn ▸ hlt) d rfl
    · exact .inl ⟨e, .rounds_hit hr (.skip_ite false) hd he, h⟩
    · exact .inr ⟨.rounds_hit hr (.skip_ite false) hd he, h⟩
  · exact .inl ⟨c, .rounds_miss hr (.skip_ite false) hmiss, hsolid⟩
  · exact .inr ⟨.rounds_stop hr (.skip_ite false) hstop, hpass⟩

/-- Skipping passes over the gap that begins here. -/
theorem skip_blanks (hh : Houses w.rules place) (ctx : Context V) (c : Cursor) :
    (∃ d, Derives w (some (place "spaces_and_comments")) (.skip ctx) c (.hit ctx d) ∧ afterGap c.rest = some d.rest) ∨
    Derives w (some (place "spaces_and_comments")) (.skip ctx) c .stop ∧ afterGap c.rest = none := by
  have rule : ∀ {r}, Derives w none (.pattern (linked place "spaces_and_comments" (.many1 gapPiece))
      (.many1 (aim place gapPiece)) ⟨[], none, c.offset⟩) c r →
      Derives w none (.rule (place "spaces_and_comments") []) c r := hh.rule gap_mem
  obtain ⟨d, hd, -, hpass⟩ | ⟨hmiss, hsolid⟩ | ⟨hstop, hpass⟩ :=
    gapPiece_spec hh (linked place "spaces_and_comments" (.many1 gapPiece)) rfl ⟨[], none, c.offset⟩ c
  · rw [hpass]
    obtain ⟨e, he, h⟩ | ⟨he, h⟩ :=
      gap_rounds hh (linked place "spaces_and_comments" (.many1 gapPiece)) rfl ⟨[], none, c.offset⟩ d
    · exact .inl ⟨e, .skip_hit (rule (.many1_hit hd he)), h⟩
    · exact .inr ⟨.skip_stop (rule (.many1_hit hd he)), h⟩
  · exact .inl ⟨c, .skip_miss (rule (.many1_miss hmiss)), hsolid⟩
  · exact .inr ⟨.skip_stop (rule (.many1_stop hstop)), hpass⟩

theorem Houses.canSkip (hh : Houses w.rules place) : w.CanSkip (some (place "spaces_and_comments")) := by
  rintro _ ⟨⟩
  exact ⟨_, hh gap_mem, rfl⟩

/-- What a skip leaves. -/
theorem afterGap_of_skip (hh : Houses w.rules place) {ctx' : Context V}
    (h : Derives w (some (place "spaces_and_comments")) (.skip ctx) c (.hit ctx' d)) : afterGap c.rest = some d.rest := by
  obtain ⟨e, he, hpass⟩ | ⟨he, -⟩ := skip_blanks hh ctx c
  · cases h.unique he
    exact hpass
  · cases h.unique he

/-- A skip over a text that is left behind. -/
theorem skip_of_afterGap (hh : Houses w.rules place) {x : List Char} (hc : c.Spans x d) (ctx : Context V)
    (h : afterGap c.rest = some d.rest) : Derives w (some (place "spaces_and_comments")) (.skip ctx) c (.hit ctx d) := by
  obtain ⟨e, he, hpass⟩ | ⟨-, hpass⟩ := skip_blanks hh ctx c
  · obtain ⟨y, hy⟩ := he.spans
    have hrest : e.rest = d.rest := Option.some.inj (hpass.symm.trans h)
    have hxy : x = y := List.append_cancel_right (by rw [← hc.rest, hy.rest, hrest])
    subst hxy
    exact hc.unique hy ▸ he
  · cases h.symm.trans hpass

end

/-! ## Errors -/

section
variable {rules : Array (Rule V)} {i : Input} {farthest : Nat} {expected : List String} {name : String} {p : Pattern}

/-- A part of the skip rule. -/
abbrev Hush (i : Input) (farthest : Nat) (expected : List String) (m : Engine V Match) : Prop :=
  Hushed i farthest expected (· = unclosed i) (fun _ => True) m

theorem Houses.hush (hh : Houses rules place) (h : Rule.new name p ∈ (grammar : GrammarDecl V).rules)
    (hp : ∀ fuel, Hush i farthest expected
      ((aim place p).run rules fuel (Engine.invoke rules fuel) (linked place name p)))
    (fuel : Nat) : Hush i farthest expected (Engine.invoke rules fuel (place name)) := by
  cases fuel with
  | zero => exact fun _ _ _ h => nomatch h
  | succ fuel =>
    unfold Engine.invoke
    rw [hh h]
    exact .matchRule rfl rfl (hp fuel)

theorem Houses.hush_call (hh : Houses rules place) (h : Rule.new name p ∈ (grammar : GrammarDecl V).rules)
    (hp : ∀ fuel, Hush i farthest expected (Engine.invoke rules fuel (place name))) {caller : Rule V}
    (hc : caller.preCall? name = none) (fuel : Nat) :
    Hush i farthest expected ((aim place (.rule name)).run rules fuel (Engine.invoke rules fuel) caller) :=
  .call (c := ⟨name, name, 0, some (place name)⟩) rfl rfl hc (hh h) rfl (hp fuel)

theorem hush_newline (hh : Houses rules place) (fuel : Nat) :
    Hush i farthest expected (Engine.invoke rules fuel (place "newline")) :=
  hh.hush newline_mem (fun _ => .alt (.alt (.matchText _) (.matchOne _)) (.matchOne _)) fuel

theorem hush_lineComment (hh : Houses rules place) (fuel : Nat) :
    Hush i farthest expected (Engine.invoke rules fuel (place "line_comment")) :=
  hh.hush lineComment_mem (fun fuel => .token (.seq (.seq (.matchText _) (.many (.matchOne _)))
    (.opt (hh.hush_call newline_mem (hush_newline hh) rfl fuel)))) fuel

/-- The inside of a comment. -/
def commentBody : Pattern := .seq (.text "/*") (.many inComment)

/-- The inside of a comment ends where the comment is closed, or at the end of the text. -/
theorem commentBody_end {rule : Rule V} {ctx ctx' : Context V} {c d : Cursor}
    (h : Derives w none (.pattern rule commentBody ctx) c (.hit ctx' d)) : d.rest = [] ∨ "*/".toList <+: d.rest := by
  by_cases hc : "/*".toList <+: c.rest
  · obtain ⟨c₁, hc₁⟩ := Cursor.exists_spans hc
    obtain ⟨d₁, hd, hend⟩ := inComment_rounds (w := w) rule ctx c₁ true
    cases h.unique (.seq_tight (.text_of_spans hc₁) (.many hd))
    rcases hend with ⟨hnil, -⟩ | ⟨t, ht, -⟩
    · exact .inl hnil
    · exact .inr (ht ▸ ⟨t, rfl⟩)
  · cases h.unique (.seq_first (.text_of_no_match hc))

theorem hush_blockComment (hh : Houses rules place)
    (hl : ∀ (id : RuleId) rule, rules[id]? = some rule → rule.definition.Linked rules rule) (fuel : Nat) :
    Hush i farthest expected (Engine.invoke rules fuel (place "block_comment")) := by
  refine hh.hush blockComment_mem (fun fuel => .token fun s hs => ?_) fuel
  let w : World V := ⟨rules, s.scanner.input.file, s.scanner.input.fileIndex⟩
  have hat : At w none s.context s.scanner.cursor s := by
    refine ⟨rfl, hs.input ▸ hs.place, rfl, ?_, rfl, rfl⟩
    simp [Scanner.skipsWith, Scanner.canSkip, hs.skipping]
  have hbody : Hush i farthest expected (commentBody.run rules fuel (Engine.invoke rules fuel)
      (linked place "block_comment" blockComment)) :=
    .seq (.matchText _) (.many (.diff (.matchOne _) (.matchText _)))
  have hfollows := follows_run (w := w) (invokesAs hl fuel) fuel
    (linked place "block_comment" blockComment) (p := commentBody) ⟨trivial, trivial, trivial⟩ w.canSkip_none hat
  show wp ((Pattern.seq commentBody (.expect (.text "*/"))).run rules fuel (Engine.invoke rules fuel) _) _ _ s
  unfold Pattern.run
  rw [wp_bind, Engine.wp_here, wp_bind]
  refine wp_mono (wp_and (hbody s hs) hfollows) ?_ fun _ _ he => he.1
  rintro r t ⟨⟨-, ht⟩, answer, hderives, hmeets⟩
  cases r with
  | miss => exact ⟨trivial, ht⟩
  | hit n =>
    obtain ⟨ctx', d, rfl, hreach⟩ : ∃ ctx' d, answer = .hit ctx' d ∧ Reaches w none s ctx' d t := by
      cases answer with
      | hit ctx' d => exact ⟨ctx', d, rfl, hmeets.2⟩
      | miss ctx' => cases hmeets.1
      | stop => exact hmeets.elim
    rw [wp_bind, Engine.wp_here, wp_bind]
    refine Engine.wp_skip_of_not ht.canSkip ?_
    have hexpect : wp ((Pattern.expect (.text "*/")).run rules fuel (Engine.invoke rules fuel)
        (linked place "block_comment" blockComment)) (fun _ u => Muted i farthest expected u)
        (fun e _ => ∀ error, e = .error error → error = unclosed i) t := by
      unfold Pattern.run
      rw [wp_bind]
      show wp (Engine.matchText "*/") _ _ t
      unfold Engine.matchText
      rw [wp_bind, Engine.wp_here, hreach.cursor]
      rcases hafter : d.after? "*/".toList with _ | e
      · rw [Engine.wp_missed, ht.note]
        rintro _ ⟨⟩
        -- Nothing closes the comment, so its inside went on to the end of the text.
        have hnil : d.rest = [] := (commentBody_end hderives).resolve_right (Cursor.after?_eq_none_iff.1 hafter)
        have hstop : t.scanner.offset = i.stop := by
          have := hreach.place.offset_add
          rw [hnil, ht.input] at this
          rw [hreach.offset]
          exact this
        rw [hstop, unclosed, Scanner.expectationFailure_input, ht.input]
      · exact ht.moveTo ((hreach.cursor ▸ ht.place : d.In i).after hafter).1
    rw [wp_bind]
    refine wp_mono hexpect (fun r u hu => ?_) fun _ _ he => he
    rcases r with (_ | n) | _
    · exact Hushed.bind (.moveTo ht.place) (fun _ _ => .hitFrom _) u hu
    · exact Hushed.hitFrom _ u hu
    · exact Hushed.bind (.moveTo hs.place) (fun _ _ => .pure trivial) u hu

theorem hush_comment (hh : Houses rules place)
    (hl : ∀ (id : RuleId) rule, rules[id]? = some rule → rule.definition.Linked rules rule) (fuel : Nat) :
    Hush i farthest expected (Engine.invoke rules fuel (place "comment")) :=
  hh.hush comment_mem (fun fuel => .alt (hh.hush_call lineComment_mem (hush_lineComment hh) rfl fuel)
    (hh.hush_call blockComment_mem (hush_blockComment hh hl) rfl fuel)) fuel

theorem hush_blanks (hh : Houses rules place)
    (hl : ∀ (id : RuleId) rule, rules[id]? = some rule → rule.definition.Linked rules rule) (fuel : Nat) :
    Hush i farthest expected (Engine.invoke rules fuel (place "spaces_and_comments")) :=
  hh.hush gap_mem (fun fuel => .many1 (.alt (.matchOne _) (hh.hush_call comment_mem (hush_comment hh hl) rfl fuel)))
    fuel

/-- A skip ends after the gap that begins here, with nothing noted, or it fails at a comment that is not closed. -/
theorem wp_skip (hh : Houses w.rules place)
    (hl : ∀ (id : RuleId) rule, w.rules[id]? = some rule → rule.definition.Linked w.rules rule) {s : State V}
    {ctx : Context V} {c : Cursor} (hs : At w (some (place "spaces_and_comments")) ctx c s) (fuel : Nat) :
    wp (Engine.skip (Engine.invoke w.rules fuel))
      (fun _ t => ∃ d, afterGap c.rest = some d.rest ∧ Reaches w (some (place "spaces_and_comments")) s ctx d t ∧
        t.scanner.farthest = s.scanner.farthest ∧ t.scanner.expected = s.scanner.expected)
      (fun e _ => e = .exhausted ∨ afterGap c.rest = none ∧ e = .error (unclosed s.scanner.input)) s := by
  have hplace : s.scanner.cursor.In s.scanner.input := hs.cursor ▸ hs.place
  obtain ⟨hrule, -, -⟩ := Scanner.skipsWith_eq_some hs.skips
  refine wp_mono (wp_and (continues_skip (invokesAs hl fuel) hh.canSkip hs)
    (skip_silent hrule hplace (hush_blanks hh hl fuel))) ?_ ?_
  · rintro - t ⟨⟨ctx', d, hderives, ht⟩, hnoted⟩
    obtain rfl := skip_context hderives
    exact ⟨d, afterGap_of_skip hh hderives, ht, hnoted⟩
  · rintro e t ⟨hstop | hstop, herror⟩
    · exact .inl hstop
    · obtain ⟨d, hd, -⟩ | ⟨-, hnone⟩ := skip_blanks hh ctx c
      · cases hstop.unique hd
      · cases e with
        | exhausted => exact .inl rfl
        | error error => exact .inr ⟨hnone, by rw [herror error rfl]⟩

end

end Lexical

end PegFront
