import PegFront.Proofs.Skipping
import PegFront.Proofs.WellFormed
import PegFront.Proofs.Regrouping

/-!
# The longest row of blanks and comments

The skip rule of the lexical grammar in every domain that has this grammar. What it passes over is a row of
`Pieces`, each a blank, a comment that goes to the end of its line, or a comment that is closed. At every place of
a text it passes over the longest row there is, and where it has done so it does not move again; only behind a row
that a comment follows that is not closed (`Unclosed`) it fails, with an error about the end of the text
(`skip_longest`).
-/

namespace PegFront.Lexical

open Cminor (passGap afterGap Solid inLine unclosed)

/-! ## Pieces of a gap -/

/-- What ends a line before the text `r`. -/
inductive LineEnd : (r x : List Char) → Prop
  | both {r} : LineEnd r ['\r', '\n']
  | feed {r} : LineEnd r ['\n']
  | carriage {r} (h : r.head? ≠ some '\n') : LineEnd r ['\r']
  | last : LineEnd [] []

/-- A blank or a comment before the text `r`. -/
inductive Piece (r : List Char) : List Char → Prop
  | blank {ch} (h : Text.isBlank ch = true) : Piece r [ch]
  | line {x e} (hx : ∀ ch ∈ x, ch ≠ '\n' ∧ ch ≠ '\r') (he : LineEnd r e) : Piece r ('/' :: '/' :: (x ++ e))
  | block {x} (hx : ¬ ['*', '/'] <:+: x ++ ['*']) : Piece r ('/' :: '*' :: (x ++ ['*', '/']))

/-- Pieces one after the other, before the text `r`. -/
inductive Pieces (r : List Char) : List Char → Prop
  | nil : Pieces r []
  | cons {x y} (h : Piece (y ++ r) x) (hy : Pieces r y) : Pieces r (x ++ y)

/-- Behind some pieces a comment begins that is not closed. -/
def Unclosed (t : List Char) : Prop :=
  ∃ x r, t = x ++ '/' :: '*' :: r ∧ Pieces ('/' :: '*' :: r) x ∧ ¬ ['*', '/'] <:+: r

/-- No row of pieces at the start of the text `x ++ r` is longer than `x`. -/
structure Longest (r x : List Char) : Prop where
  pieces : Pieces r x
  longest : ∀ r' x', x' ++ r' = x ++ r → Pieces r' x' → x'.length ≤ x.length

variable {t r x : List Char}

theorem LineEnd.passGap {e : List Char} (h : LineEnd r e) : passGap .line (e ++ r) = afterGap r := by
  cases h with
  | both => exact Cminor.passGap_blank (by decide) r
  | feed => rfl
  | carriage => rfl
  | last => rfl

theorem Piece.afterGap (h : Piece r x) : afterGap (x ++ r) = Cminor.afterGap r := by
  cases h with
  | blank h => exact Cminor.passGap_blank h r
  | @line x e hx he =>
    have hline : ∀ ch ∈ x, inLine.accepts ch = true := fun ch hch => by simp [Cminor.inLine_accepts, hx ch hch]
    show Cminor.passGap .line (x ++ e ++ r) = _
    rw [List.append_assoc, Cminor.passGap_line hline, he.passGap]
  | @block x hx =>
    show Cminor.passGap .block (x ++ ['*', '/'] ++ r) = _
    rw [List.append_assoc]
    exact Cminor.passGap_block hx r

/-- Pieces are passed over. -/
theorem Pieces.afterGap (h : Pieces r x) : afterGap (x ++ r) = Cminor.afterGap r := by
  induction h with
  | nil => rfl
  | cons h _ ih => rw [List.append_assoc, h.afterGap, ih]

/-! ## Reading pieces -/

/-- The line that begins a text. -/
theorem exists_line (t : List Char) :
    ∃ x e r, t = x ++ e ++ r ∧ (∀ ch ∈ x, ch ≠ '\n' ∧ ch ≠ '\r') ∧ LineEnd r e := by
  induction t with
  | nil => exact ⟨[], [], [], rfl, nofun, .last⟩
  | cons ch t ih =>
    by_cases hfeed : ch = '\n'
    · exact ⟨[], ['\n'], t, by rw [hfeed]; rfl, nofun, .feed⟩
    by_cases hreturn : ch = '\r'
    · subst hreturn
      by_cases hnext : t.head? = some '\n'
      · obtain ⟨t', rfl⟩ := List.head?_eq_some_iff.1 hnext
        exact ⟨[], ['\r', '\n'], t', rfl, nofun, .both⟩
      · exact ⟨[], ['\r'], t, rfl, nofun, .carriage hnext⟩
    · obtain ⟨x, e, r, rfl, hx, he⟩ := ih
      exact ⟨ch :: x, e, r, rfl, List.forall_mem_cons.2 ⟨⟨hfeed, hreturn⟩, hx⟩, he⟩

/-- Where a comment is closed for the first time. -/
theorem exists_closing (h : ['*', '/'] <:+: t) : ∃ x r, t = x ++ '*' :: '/' :: r ∧ ¬ ['*', '/'] <:+: x ++ ['*'] := by
  induction t with
  | nil => simp at h
  | cons ch t ih =>
    by_cases hhere : ['*', '/'] <+: ch :: t
    · obtain ⟨r, hr⟩ := hhere
      exact ⟨[], r, hr.symm, by decide⟩
    · obtain ⟨x, r, rfl, hx⟩ := ih ((List.infix_cons_iff.1 h).resolve_left hhere)
      refine ⟨ch :: x, r, rfl, fun hin => ?_⟩
      obtain hin | hin := List.infix_cons_iff.1 hin
      · exact hhere (hin.trans ⟨'/' :: r, by simp⟩)
      · exact hx hin

/-- A text begins with a piece, with a comment that is not closed, or with neither. -/
theorem exists_piece (t : List Char) : Solid t ∨ (∃ x r, t = x ++ r ∧ x ≠ [] ∧ Piece r x) ∨
    ∃ r, t = '/' :: '*' :: r ∧ ¬ ['*', '/'] <:+: r := by
  cases t with
  | nil => exact .inl rfl
  | cons ch t =>
    by_cases hblank : Text.isBlank ch = true
    · exact .inr (.inl ⟨[ch], t, rfl, List.cons_ne_nil _ _, .blank hblank⟩)
    by_cases hslash : ch = '/'
    swap
    · exact .inl (Cminor.solid_cons (Bool.eq_false_iff.2 hblank) hslash t)
    subst hslash
    by_cases hline : t.head? = some '/'
    · obtain ⟨t, rfl⟩ := List.head?_eq_some_iff.1 hline
      obtain ⟨x, e, r, rfl, hx, he⟩ := exists_line t
      exact .inr (.inl ⟨'/' :: '/' :: (x ++ e), r, rfl, List.cons_ne_nil _ _, .line hx he⟩)
    by_cases hblock : t.head? = some '*'
    · obtain ⟨t, rfl⟩ := List.head?_eq_some_iff.1 hblock
      by_cases hclosed : ['*', '/'] <:+: t
      · obtain ⟨x, r, rfl, hx⟩ := exists_closing hclosed
        exact .inr (.inl ⟨'/' :: '*' :: (x ++ ['*', '/']), r, by simp, List.cons_ne_nil _ _, .block hx⟩)
      · exact .inr (.inr ⟨t, rfl, hclosed⟩)
    · refine .inl (Cminor.solid_slash fun c hc => ⟨?_, ?_⟩) <;> rintro rfl
      · exact hline hc
      · exact hblock hc

/-- A text is a row of pieces with something behind it that begins none. -/
theorem exists_pieces (t : List Char) : ∃ x r, t = x ++ r ∧ Pieces r x ∧
    (Solid r ∨ ∃ r', r = '/' :: '*' :: r' ∧ ¬ ['*', '/'] <:+: r') := by
  induction hn : t.length using Nat.strongRecOn generalizing t with
  | _ n ih =>
  obtain hsolid | ⟨x, r, rfl, hne, hx⟩ | hopen := exists_piece t
  · exact ⟨[], t, rfl, .nil, .inl hsolid⟩
  · have hlt : r.length < n := by
      have := List.length_pos_iff.2 hne
      rw [← hn, List.length_append]
      omega
    obtain ⟨y, r, rfl, hy, hend⟩ := ih r.length hlt r rfl
    exact ⟨x ++ y, r, (List.append_assoc x y r).symm, .cons hx hy, hend⟩
  · exact ⟨[], t, rfl, .nil, .inr hopen⟩

theorem passGap_open (h : ¬ ['*', '/'] <:+: t) : passGap .block t = none := by
  induction t with
  | nil => rfl
  | cons ch t ih =>
    rw [List.infix_cons_iff, not_or] at h
    rw [passGap, ih h.2]
    rintro cs rfl rfl
    exact h.1 ⟨cs, rfl⟩

theorem Unclosed.afterGap (h : Unclosed t) : afterGap t = none := by
  obtain ⟨x, r, rfl, hx, hr⟩ := h
  exact hx.afterGap.trans (passGap_open hr)

/-- The longest row of pieces is what is passed over. -/
theorem longest_of_solid (hx : Pieces r x) (hr : Solid r) : Longest r x where
  pieces := hx
  longest := by
    intro r' x' h hx'
    have hpass : Cminor.afterGap r' = some r := by rw [← hx'.afterGap, h, hx.afterGap, hr]
    have hle := Cminor.passGap_length hpass
    have hlength := congrArg List.length h
    simp only [List.length_append] at hlength
    omega

theorem exists_longest (h : ¬ Unclosed t) : ∃ x r, t = x ++ r ∧ Longest r x ∧ Solid r ∧ afterGap t = some r := by
  obtain ⟨x, r, rfl, hx, hr | ⟨r, rfl, hr⟩⟩ := exists_pieces t
  · exact ⟨x, r, rfl, longest_of_solid hx hr, hr, hx.afterGap.trans hr⟩
  · exact (h ⟨x, r, rfl, hx, hr⟩).elim

/-! ## Domains with the lexical grammar -/

section
variable {V : Type} {registry : Registry V} {d : Domain V}

/-- The rule that a node calls is one of the lexical grammar. -/
def callsOwn : Pattern → Bool
  | .call c => ((grammar : GrammarDecl Unit).rules.map (·.name)).contains c.rule
  | _ => true

theorem callsOwn_rules :
    ((grammar : GrammarDecl V).rules.all fun rule => rule.definition.nodes.all callsOwn) = true := by
  rfl

theorem names_eq : (grammar : GrammarDecl V).rules.map (·.name) = (grammar : GrammarDecl Unit).rules.map (·.name) := rfl

/-- A linked domain that has the lexical grammar has its rules. -/
theorem exists_houses (hi : registry.Indexed) (hg : grammar ∈ registry.grammars) (hd : registry.link = .ok d) :
    ∃ place, Houses d.rules place ∧
      ∀ name ∈ (grammar : GrammarDecl V).rules.map (·.name), Numbered d.rules grammarName name (place name) := by
  have hreal := (registry.link_iff_wellFormed hi).2 d hd
  have hnumbered : ∀ name : String, ∃ id, name ∈ (grammar : GrammarDecl V).rules.map (·.name) →
      Numbered d.rules grammarName name id := by
    intro name
    by_cases h : name ∈ (grammar : GrammarDecl V).rules.map (·.name)
    · obtain ⟨rule, hr, rfl⟩ := List.mem_map.1 h
      obtain ⟨id, target, hid, -⟩ := hreal.rules grammar hg rule hr
      exact ⟨id, fun _ => ⟨_, hid, rfl, rfl⟩⟩
    · exact ⟨0, fun h' => absurd h' h⟩
  choose place hplace using hnumbered
  refine ⟨place, fun {name p} h => ?_, hplace⟩
  obtain ⟨id, target, hid, hcalls⟩ := hreal.rules grammar hg _ h
  have hname : place name = id :=
    hreal.unique (hplace name (List.mem_map_of_mem h)) ⟨_, hid, rfl, rfl⟩
  -- Every call is of a rule of the same grammar, and that has one place only.
  have haim : p.mapCalls (Call.aim target) = aim place p := by
    refine Pattern.mapCalls_congr fun c hc => ?_
    have hown := List.all_eq_true.1 (List.all_eq_true.1 callsOwn_rules _ h) _ (Pattern.mem_nodes_iff.2 hc)
    have hmem : c.rule ∈ (grammar : GrammarDecl V).rules.map (·.name) := by
      rw [names_eq]
      simpa [callsOwn] using hown
    obtain ⟨rule, hr, hrule⟩ := List.mem_map.1 hmem
    obtain ⟨grammar', n, hresolves, hnum⟩ := hcalls c hc
    obtain ⟨rfl, rfl⟩ := hresolves.unique (.found (.own hr hrule))
    exact congrArg (fun id => { c with target := some id }) (hreal.unique hnum (hplace _ hmem))
  rw [hname, hid]
  exact congrArg (fun q => some { Rule.new name p with grammar := grammarName, definition := q }) haim

end

/-! ## Applications of the skip rule -/

section
variable {V : Type} {rules : Array (Rule V)} {place : String → RuleId} {s : State V}

/-- An application of the skip rule from `s` ends in `t`, and in no other way. -/
def SkipsTo (rules : Array (Rule V)) (s t : State V) : Prop :=
  ∀ result u, SkipEnds rules s result u ↔ result = .ok () ∧ u = t

/-- An application of the skip rule from `s` fails with the error `e`, and ends in no other way. -/
def SkipStops (rules : Array (Rule V)) (s : State V) (e : ParseError) : Prop :=
  (∃ t, SkipEnds rules s (.error e) t) ∧ ∀ result t, SkipEnds rules s result t → result = .error e

variable (hh : Houses rules place)
  (hl : ∀ (id : RuleId) rule, rules[id]? = some rule → rule.definition.Linked rules rule)
  (hskips : s.scanner.skipsWith = some (place "spaces_and_comments")) (hs : s.scanner.cursor.In s.scanner.input)
include hh hl hskips hs

theorem skipsTo {x : List Char} {c : Cursor} (hx : s.scanner.cursor.Spans x c)
    (h : afterGap s.scanner.cursor.rest = some c.rest) : SkipsTo rules s (s.moveTo c) := by
  have hat := hskips ▸ State.at_cursor rules hs
  have hcan : (s.world rules).CanSkip (some (place "spaces_and_comments")) := Houses.canSkip hh
  have hderives := skip_of_afterGap (w := s.world rules) hh hx s.context h
  intro result u
  constructor
  · intro hends
    cases result with
    | error e =>
      obtain ⟨fuel, hout⟩ := hends
      obtain he | ⟨hnone, -⟩ := wp_error (wp_skip (w := s.world rules) hh hl hat fuel) hout
      · cases he
      · cases h.symm.trans hnone
    | ok =>
      obtain ⟨d, hd, rfl⟩ := (skipEnds_iff hl hcan hat).1 hends
      cases hd.unique hderives
      exact ⟨rfl, rfl⟩
  · rintro ⟨rfl, rfl⟩
    exact (skipEnds_iff hl hcan hat).2 ⟨c, hderives, rfl⟩

theorem skipStops (h : afterGap s.scanner.cursor.rest = none) :
    SkipStops rules s (unclosed s.scanner.input) := by
  have hat := hskips ▸ State.at_cursor rules hs
  have hfails : ∀ result t, SkipEnds rules s result t → result = .error (unclosed s.scanner.input) := by
    rintro result t ⟨fuel, hout⟩
    have hwp := wp_skip (w := s.world rules) hh hl hat fuel
    cases result with
    | error e =>
      obtain he | ⟨-, he⟩ := wp_error hwp hout
      · cases he
      · cases he
        rfl
    | ok =>
      obtain ⟨d, hd, -⟩ := wp_ok hwp hout
      cases h.symm.trans hd
  obtain ⟨d, -, hd⟩ | ⟨hstop, -⟩ := skip_blanks (w := s.world rules) hh s.context s.scanner.cursor
  · cases h.symm.trans hd
  · obtain ⟨e, t, ht⟩ := hstop.skip_fails hl (Houses.canSkip hh) hat
    cases hfails _ _ ht
    exact ⟨⟨t, ht⟩, hfails⟩

end

/-- The skip rule of the lexical grammar, in every domain that has it and at every place of an input. It passes over
the longest row of blanks and comments, from where a second application does not move; it fails exactly if a comment
that is not closed comes behind such a row. -/
theorem skip_longest {V : Type} {registry : Registry V} {d : Domain V} (hi : registry.Indexed)
    (hg : grammar ∈ registry.grammars) (hd : registry.link = .ok d) :
    ∃ id, Numbered d.rules grammarName "spaces_and_comments" id ∧
      ∀ s : State V, s.scanner.skipsWith = some id → s.scanner.cursor.In s.scanner.input →
        (Unclosed s.scanner.cursor.rest → SkipStops d.rules s (unclosed s.scanner.input)) ∧
        (¬ Unclosed s.scanner.cursor.rest → ∃ x c, s.scanner.cursor.Spans x c ∧ Longest c.rest x ∧
          SkipsTo d.rules s (s.moveTo c) ∧ SkipsTo d.rules (s.moveTo c) (s.moveTo c)) := by
  obtain ⟨place, hh, hnumbered⟩ := exists_houses hi hg hd
  have hl := (Registry.linked hd).rules
  refine ⟨place "spaces_and_comments", hnumbered _ (List.mem_map_of_mem gap_mem), fun s hskips hs => ⟨?_, ?_⟩⟩
  · exact fun h => skipStops hh hl hskips hs h.afterGap
  · intro h
    obtain ⟨x, r, hrest, hx, hsolid, hpass⟩ := exists_longest h
    let c : Cursor := ⟨s.scanner.cursor.offset + Text.byteLength x, r⟩
    have hspans : s.scanner.cursor.Spans x c := ⟨hrest, rfl⟩
    exact ⟨x, c, hspans, hx, skipsTo hh hl hskips hs hspans hpass,
      skipsTo (s := s.moveTo c) hh hl hskips (hspans.inside hs) .rfl hsolid⟩

/-- The lexical grammar alone, applied to a text with two comments and to one with a comment that is not closed. -/
theorem skip_longest_alone :
    let registry : Registry Unit := (Registry.empty.add grammar).2
    let at_start (id : RuleId) (text : String) : State Unit :=
      ⟨{ Scanner.new (.whole text.toList 0 "f") with skipRule := some id }, .empty, .empty⟩
    registry.Indexed ∧ grammar ∈ registry.grammars ∧ ∃ d id, registry.link = .ok d ∧
      Numbered d.rules grammarName "spaces_and_comments" id ∧
      (let s := at_start id " // a\r\n/*/ b */c"
        ∃ x c, s.scanner.cursor.Spans x c ∧ Longest c.rest x ∧
          SkipsTo d.rules s (s.moveTo c) ∧ SkipsTo d.rules (s.moveTo c) (s.moveTo c)) ∧
      let s := at_start id "//*/\r/*/"
      SkipStops d.rules s (unclosed s.scanner.input) := by
  intro registry at_start
  have hi : registry.Indexed := Registry.indexed_empty.add grammar
  have hg : grammar ∈ registry.grammars := List.mem_singleton_self _
  have hlinks : registry.link.toOption.isSome = true := by decide +kernel
  obtain ⟨d, hd⟩ : ∃ d, registry.link = .ok d := by
    cases h : registry.link with
    | ok d => exact ⟨d, rfl⟩
    | error e =>
      rw [h] at hlinks
      cases hlinks
  obtain ⟨id, hid, hskip⟩ := skip_longest hi hg hd
  have hclosed : ¬ Unclosed " // a\r\n/*/ b */c".toList := fun h => absurd h.afterGap (by decide +kernel)
  have hopen : Unclosed "//*/\r/*/".toList := by
    have hline : Piece ['/', '*', '/'] ['/', '/', '*', '/', '\r'] :=
      .line (x := ['*', '/']) (by simp) (.carriage (by decide))
    exact ⟨_, ['/'], by decide, .cons (y := []) hline .nil, by decide⟩
  have hskips (text : String) : (at_start id text).scanner.skipsWith = some id := rfl
  have hin (text : String) : (at_start id text).scanner.cursor.In (at_start id text).scanner.input :=
    Scanner.new_whole_in _ _ _
  have hrest (text : String) : (at_start id text).scanner.cursor.rest = text.toList :=
    congrArg Cursor.rest (Input.cursorAt_whole _ _ _)
  exact ⟨hi, hg, d, id, hd, hid, (hskip _ (hskips _) (hin _)).2 (hrest _ ▸ hclosed),
    (hskip _ (hskips _) (hin _)).1 (hrest _ ▸ hopen)⟩

end PegFront.Lexical
