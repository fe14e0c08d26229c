import PegFront.Proofs.Cminor.Identifiers

/-!
# Two ways to match a keyword

A keyword is matched as a literal behind which no word goes on, or as the longest word at a place, read in a token
and looked up in a list. For a word both come to the same wherever they are applied (`keyword_ofWords`): nothing is
called and nothing is skipped, so neither depends on the rules, on the rule that may be skipped with, or on whether
it may run. How many rounds the word takes is known in advance, so that no run with more fuel than that uses it up.
-/

namespace PegFront

open Filter

variable {V : Type}

/-! ## What a pattern comes to -/

/-- The runs of a pattern of a rule from `s` that end have the match `m` and end at `c`; and there is one. -/
def Pattern.Comes (rules : Array (Rule V)) (rule : Rule V) (p : Pattern) (s : State V) (m : Match) (c : Cursor) : Prop :=
  (∃ t, p.Ends rules rule s (.ok m) t) ∧
    ∀ result t, p.Ends rules rule s result t → result = .ok m ∧ t.scanner.cursor = c

section
variable {rules : Array (Rule V)} {rule : Rule V} {p : Pattern} {s : State V} {m : Match} {c : Cursor}

/-- The run from `s` ends with the match `m` at `c`. -/
def Brings (m : Match) (c : Cursor) (run : Engine V Match) (s : State V) : Prop :=
  wp run (fun m' t => m' = m ∧ t.scanner.cursor = c) (fun _ _ => False) s

theorem Pattern.comes_of_eventually
    (h : ∀ᶠ fuel in atTop, Brings m c (p.run rules fuel (Engine.invoke rules fuel) rule) s) :
    p.Comes rules rule s m c := by
  constructor
  · obtain ⟨fuel, hrun⟩ := h.exists
    rcases hout : outcome (p.run rules fuel (Engine.invoke rules fuel) rule) s with ⟨e | m', t⟩
    · exact (wp_error hrun hout).elim
    · obtain ⟨rfl, -⟩ := wp_ok hrun hout
      exact ⟨t, fuel, hout⟩
  · intro result t hends
    -- Some amount of fuel is enough for this run and for the other one.
    obtain ⟨fuel, hrun, hout⟩ := (h.and (ends_iff_eventually.1 hends)).exists
    cases result with
    | error e => exact (wp_error hrun hout).elim
    | ok m' =>
      obtain ⟨rfl, hc⟩ := wp_ok hrun hout
      exact ⟨rfl, hc⟩

end

/-! ## Terminals -/

theorem Scanner.note_cursor (s : Scanner) (what : String) : (s.note what).cursor = s.cursor := by
  obtain ⟨farthest, expected, h⟩ := s.note_eq what
  rw [h]

section
variable {s : State V} {c d : Cursor} {E : Stop → State V → Prop} {Q : Match → State V → Prop}

namespace Engine

variable {kind : CharKind} {ch : Char} {word : String}

theorem wp_matchOne_hit (hc : s.scanner.cursor.Spans [ch] d) (hk : kind.accepts ch = true) :
    wp (matchOne kind) Q E s ↔ Q (.hit ch.utf8Size) (s.moveTo d) := by
  unfold matchOne
  rw [wp_bind, wp_here, Cursor.next?_eq_some_iff.2 hc]
  dsimp only
  rw [if_pos hk]
  rfl

theorem wp_matchOne_miss (h : ∀ ch ∈ s.scanner.cursor.rest.head?, kind.accepts ch = false) :
    wp (matchOne kind) Q E s ↔
      Q .miss { s with scanner := s.scanner.note (Pattern.one kind).describe } := by
  unfold matchOne
  rw [wp_bind, wp_here]
  rw [← Cursor.next?_map_fst] at h
  cases hnext : s.scanner.cursor.next? with
  | none => rfl
  | some next =>
    have hk : kind.accepts next.1 = false := h next.1 (by rw [hnext]; rfl)
    dsimp only
    rw [if_neg (Bool.eq_false_iff.1 hk)]
    rfl

theorem wp_matchKeyword_hit (hc : s.scanner.cursor.Spans word.toList d) (hd : Cminor.WordEnd d.rest) :
    wp (matchKeyword word) Q E s ↔ Q (.hit word.utf8ByteSize) (s.moveTo d) := by
  unfold matchKeyword
  rw [wp_bind, wp_here, Cursor.after?_eq_some_iff.2 hc]
  dsimp only
  rw [Cminor.wordEnd_iff.2 hd]
  rfl

theorem wp_matchKeyword_miss (h : ∀ d, s.scanner.cursor.Spans word.toList d → ¬ Cminor.WordEnd d.rest) :
    wp (matchKeyword word) Q E s ↔
      Q .miss { s with scanner := s.scanner.note (Pattern.keyword word).describe } := by
  unfold matchKeyword
  rw [wp_bind, wp_here]
  cases hafter : s.scanner.cursor.after? word.toList with
  | none => rfl
  | some d =>
    have hword := mt Cminor.wordEnd_iff.1 (h d (Cursor.after?_eq_some_iff.1 hafter))
    rw [Bool.not_eq_false] at hword
    dsimp only
    rw [hword]
    rfl

end Engine

/-! ## Runs in a token -/

namespace At

variable {w : World V} {ctx : Context V} {x : List Char} {kind : CharKind} {invoke : RuleId → Engine V Match}
  {body : Engine V Match} {fuel : Nat}

/-- A round of a repetition in a token. -/
theorem wp_round {first : Bool} {Q : Unit → State V → Prop} (h : At w none ctx c s) (hc : c.rest ≠ [])
    (hround : wp body (fun m t => wp (match m with
      | .miss => Engine.moveTo s.scanner.cursor
      | .hit _ => Engine.repeatBody (Engine.skip invoke) body fuel false) Q E t) E s) :
    wp (Engine.repeatBody (Engine.skip invoke) body (fuel + 1) first) Q E s := by
  unfold Engine.repeatBody
  rw [wp_bind, wp_get, if_neg (mt h.atEnd.1 hc)]
  cases first with
  | true => exact (wp_bind _ _).2 hround
  | false => exact (wp_bind _ _).2 (Engine.wp_skip_of_not h.canSkip ((wp_bind _ _).2 hround))

/-- A repetition takes all chars of its kind, one a round. -/
theorem wp_munch (h : At w none ctx c s) (hx : c.Spans x d) (hall : ∀ ch ∈ x, kind.accepts ch = true)
    (hend : ∀ ch ∈ d.rest.head?, kind.accepts ch = false) (hfuel : x.length < fuel) (first : Bool) :
    wp (Engine.repeatBody (Engine.skip invoke) (Engine.matchOne kind) fuel first) (fun _ t => At w none ctx d t)
      (fun _ _ => False) s := by
  induction x generalizing c s fuel first with
  | nil =>
    obtain ⟨fuel, rfl⟩ := Nat.exists_eq_add_of_le' hfuel
    obtain rfl := hx.unique .rfl
    by_cases hc : d.rest = []
    · unfold Engine.repeatBody
      rw [wp_bind, wp_get, if_pos (h.atEnd.2 hc)]
      exact h
    · refine h.wp_round hc ((Engine.wp_matchOne_miss (h.cursor ▸ hend)).2 ?_)
      have hmissed := (reaches_note h (Pattern.one kind).describe).toAt
      rw [h.cursor]
      exact hmissed.moveTo hmissed.place
  | cons ch x ih =>
    obtain ⟨fuel, rfl⟩ := Nat.exists_eq_add_of_le' (Nat.one_le_of_lt hfuel)
    obtain ⟨c₁, h₁, h₂⟩ := Cursor.spans_append.1 (show c.Spans ([ch] ++ x) d from hx)
    have hc : c.rest ≠ [] := by
      rw [hx.rest]
      exact List.cons_ne_nil _ _
    refine h.wp_round hc ((Engine.wp_matchOne_hit (h.cursor ▸ h₁) (hall ch List.mem_cons_self)).2 ?_)
    exact ih (h.moveTo (h₁.inside h.place)) h₂ (fun ch' hch' => hall ch' (List.mem_cons_of_mem _ hch'))
      (Nat.lt_of_succ_lt_succ hfuel) false

/-- In a token, a char and all chars of a kind behind it. -/
theorem brings_run {rules : Array (Rule V)} {rule : Rule V} {start : CharKind} {ch : Char} (h : At w none ctx c s)
    (hx : c.Spans (ch :: x) d) (hstart : start.accepts ch = true) (hall : ∀ ch ∈ x, kind.accepts ch = true)
    (hend : ∀ ch ∈ d.rest.head?, kind.accepts ch = false) (hfuel : x.length < fuel) :
    Brings (.hit (Text.byteLength (ch :: x))) d
      ((Pattern.seq (.one start) (.many (.one kind))).run rules fuel invoke rule) s := by
  obtain ⟨c₁, h₁, h₂⟩ := Cursor.spans_append.1 (show c.Spans ([ch] ++ x) d from hx)
  have ht := h.moveTo (h₁.inside h.place)
  unfold Brings Pattern.run
  rw [wp_bind, Engine.wp_here, wp_bind, Pattern.run, Engine.wp_matchOne_hit (h.cursor ▸ h₁) hstart]
  dsimp only
  rw [wp_bind, Engine.wp_here, wp_bind]
  refine Engine.wp_skip_of_not ht.canSkip ?_
  rw [wp_bind, Pattern.run, wp_bind, Engine.wp_here]
  refine wp_then (ht.wp_munch h₂ hall hend hfuel true) fun _ u hu => ?_
  rw [Engine.wp_hitFrom]
  have hlength : u.scanner.offset - (s.moveTo c₁).scanner.cursor.offset = Text.byteLength x := by
    rw [hu.offset, ht.cursor, h₂.offset, Nat.add_sub_cancel_left]
  have hends : ∀ t, At w none ctx d t →
      Match.hit (t.scanner.offset - s.scanner.offset) = .hit (Text.byteLength (ch :: x)) ∧ t.scanner.cursor = d := by
    intro t ht
    rw [ht.offset, h.offset, hx.offset, Nat.add_sub_cancel_left]
    exact ⟨rfl, ht.cursor⟩
  rw [hlength]
  cases hn : Text.byteLength x with
  | zero =>
    obtain rfl := Text.eq_nil_of_byteLength hn
    obtain rfl := h₂.unique .rfl
    exact hends _ (hu.moveTo hu.place)
  | succ n => exact hends u hu

theorem brings_no_run {rules : Array (Rule V)} {rule : Rule V} {start : CharKind} (h : At w none ctx c s)
    (hno : ∀ ch ∈ c.rest.head?, start.accepts ch = false) :
    Brings .miss c ((Pattern.seq (.one start) (.many (.one kind))).run rules fuel invoke rule) s := by
  unfold Brings Pattern.run
  rw [wp_bind, Engine.wp_here, wp_bind, Pattern.run, Engine.wp_matchOne_miss (h.cursor ▸ hno)]
  exact ⟨rfl, (reaches_note h _).cursor⟩

end At

/-! ## The two patterns -/

namespace Cminor

variable {rules : Array (Rule V)} {fuel : Nat} {invoke : RuleId → Engine V Match} {rule : Rule V} {x : List Char}
  {m : Match} {word : String}

theorem identifier_brings_hit (hs : s.scanner.cursor.In s.scanner.input) (hx : isWord x = true)
    (hc : s.scanner.cursor.Spans x d) (hd : WordEnd d.rest) (hfuel : x.length < fuel) :
    Brings (.hit (Text.byteLength x)) d (Lexical.identifier.run rules fuel invoke rule) s := by
  cases x with
  | nil => cases hx
  | cons ch x =>
    obtain ⟨hstart, hall⟩ := isWord_cons.1 hx
    have hat := (State.at_cursor rules hs).beginToken
    exact (Engine.wp_bracket _ _ _).2 (hat.brings_run hc hstart hall hd (Nat.lt_of_succ_lt hfuel))

theorem identifier_brings_miss (hs : s.scanner.cursor.In s.scanner.input) (hno : NoWord s.scanner.cursor.rest) :
    Brings .miss s.scanner.cursor (Lexical.identifier.run rules fuel invoke rule) s := by
  have hat := (State.at_cursor rules hs).beginToken
  exact (Engine.wp_bracket _ _ _).2 (hat.brings_no_run hno)

/-- A selector that ends at `d` with a match, and the text up to there among the words. -/
theorem ofWords_brings {selector : Pattern} {words : List String} (hc : s.scanner.cursor.Spans x d)
    (h : Brings m d (selector.run rules fuel invoke rule) s) (hm : m.isHit = true) (hmem : String.ofList x ∈ words) :
    Brings m d ((Pattern.ofWords selector words).run rules fuel invoke rule) s := by
  unfold Pattern.ofWords Brings Pattern.run
  rw [wp_bind, Engine.wp_here]
  refine wp_then h ?_
  rintro _ t ⟨rfl, ht⟩
  rw [wp_bind, Engine.wp_here, ht, hc.textTo, hm, List.contains_iff_mem.2 (mem_sorted.2 hmem)]
  exact ⟨rfl, ht⟩

theorem ofWords_brings_miss {selector : Pattern} {words : List String}
    (h : Brings m d (selector.run rules fuel invoke rule) s)
    (hno : m.isHit = true → String.ofList (s.scanner.cursor.textTo d.offset) ∉ words) :
    Brings .miss s.scanner.cursor ((Pattern.ofWords selector words).run rules fuel invoke rule) s := by
  unfold Pattern.ofWords Brings Pattern.run
  rw [wp_bind, Engine.wp_here]
  refine wp_then h ?_
  rintro m' t ⟨rfl, ht⟩
  have hmiss : (m'.isHit && (Text.sorted words).contains (String.ofList (s.scanner.cursor.textTo d.offset))) = false := by
    rw [Bool.and_eq_false_imp, Bool.eq_false_iff, ne_eq, List.contains_iff_mem, mem_sorted]
    exact hno
  rw [wp_bind, Engine.wp_here, ht, hmiss]
  exact ⟨rfl, Scanner.note_cursor _ _⟩

theorem keyword_brings (hc : s.scanner.cursor.Spans word.toList d) (hd : WordEnd d.rest) :
    Brings (.hit (Text.byteLength word.toList)) d ((Pattern.keyword word).run rules fuel invoke rule) s := by
  rw [Text.byteLength_toList]
  exact (Engine.wp_matchKeyword_hit hc hd).2 ⟨rfl, rfl⟩

theorem keyword_brings_miss (h : ∀ d, s.scanner.cursor.Spans word.toList d → ¬ WordEnd d.rest) :
    Brings .miss s.scanner.cursor ((Pattern.keyword word).run rules fuel invoke rule) s :=
  (Engine.wp_matchKeyword_miss h).2 ⟨rfl, Scanner.note_cursor _ _⟩

/-- Matched as a literal behind which no word goes on, and as the longest word at a place that is compared with it, a
keyword has the same match and leads to the same place, in a token or not and whatever may be skipped. Both hit just
where it is the longest word. -/
theorem keyword_ofWords (rules : Array (Rule V)) (rule : Rule V) {word : String} (hword : isWord word.toList = true)
    {s : State V} (hs : s.scanner.cursor.In s.scanner.input) :
    ∃ m c, (Pattern.keyword word).Comes rules rule s m c ∧
      (Pattern.ofWords Lexical.identifier [word]).Comes rules rule s m c ∧
      (m.isHit = true ↔ LongestWord s.scanner.cursor.rest word.toList) := by
  by_cases hlongest : LongestWord s.scanner.cursor.rest word.toList
  · obtain ⟨d, hd, hend⟩ := hlongest.exists_spans
    refine ⟨.hit (Text.byteLength word.toList), d, Pattern.comes_of_eventually ?_, Pattern.comes_of_eventually ?_,
      iff_of_true rfl hlongest⟩
    · exact .of_forall fun _ => keyword_brings hd hend
    · filter_upwards [eventually_gt_atTop word.toList.length] with fuel hfuel
      exact ofWords_brings hd (identifier_brings_hit hs hword hd hend hfuel) rfl (by simp)
  · have hkeyword : ∀ d, s.scanner.cursor.Spans word.toList d → ¬ WordEnd d.rest :=
      fun d hd hend => hlongest ((longestWord_iff hd).2 ⟨hword, hend⟩)
    refine ⟨.miss, s.scanner.cursor, Pattern.comes_of_eventually (.of_forall fun _ => keyword_brings_miss hkeyword),
      Pattern.comes_of_eventually ?_, iff_of_false nofun hlongest⟩
    obtain ⟨x, d, hx, hd, hend⟩ | hno := word_or_not s.scanner.cursor
    · have hne : String.ofList x ∉ [word] := by
        rw [List.mem_singleton]
        rintro rfl
        rw [String.toList_ofList] at hkeyword
        exact hkeyword d hd hend
      filter_upwards [eventually_gt_atTop x.length] with fuel hfuel
      exact ofWords_brings_miss (identifier_brings_hit hs hx hd hend hfuel) fun _ => hd.textTo.symm ▸ hne
    · exact .of_forall fun _ => ofWords_brings_miss (identifier_brings_miss hs hno) nofun

/-- A keyword where something may be skipped, and the beginning of a longer word in a token. -/
theorem keyword_ofWords_if :
    let rule : Rule Unit := .new "S" (.keyword "if")
    let at_start (depth : Nat) (text : String) : State Unit :=
      ⟨{ Scanner.new (.whole text.toList 0 "f") with skipRule := some 0, tokenDepth := depth }, .empty, .empty⟩
    (∃ m c, (Pattern.keyword "if").Comes #[] rule (at_start 0 "if(") m c ∧
      (Pattern.ofWords Lexical.identifier ["if"]).Comes #[] rule (at_start 0 "if(") m c ∧ m.isHit = true) ∧
    ∃ m c, (Pattern.keyword "if").Comes #[] rule (at_start 1 "ifs(") m c ∧
      (Pattern.ofWords Lexical.identifier ["if"]).Comes #[] rule (at_start 1 "ifs(") m c ∧ m.isHit = false := by
  intro rule at_start
  have hword : isWord "if".toList = true := by decide
  have hs (depth : Nat) (text : String) :
      (at_start depth text).scanner.cursor.In (at_start depth text).scanner.input := Scanner.new_whole_in _ _ _
  have hrest (depth : Nat) (text : String) : (at_start depth text).scanner.cursor.rest = text.toList :=
    congrArg Cursor.rest (Input.cursorAt_whole _ _ _)
  have hend : WordEnd ['('] := by
    rintro _ ⟨⟩
    decide
  have hkeyword : LongestWord (at_start 0 "if(").scanner.cursor.rest "if".toList := by
    rw [hrest]
    exact longestWord_of_end hword hend
  have hlonger : LongestWord (at_start 1 "ifs(").scanner.cursor.rest "ifs".toList := by
    rw [hrest]
    exact longestWord_of_end (x := "ifs".toList) (by decide) hend
  obtain ⟨m, c, hm, hm', hhit⟩ := keyword_ofWords #[] rule hword (hs 0 "if(")
  obtain ⟨m', c', hn, hn', hhit'⟩ := keyword_ofWords #[] rule hword (hs 1 "ifs(")
  refine ⟨⟨m, c, hm, hm', hhit.2 hkeyword⟩, m', c', hn, hn', ?_⟩
  rw [Bool.eq_false_iff, ne_eq, hhit']
  intro hshort
  have hsame : "if".toList = "ifs".toList := hshort.unique hlonger
  cases congrArg List.length hsame

end Cminor

end

end PegFront
