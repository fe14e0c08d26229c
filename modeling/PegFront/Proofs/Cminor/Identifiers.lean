import PegFront.Proofs.Cminor.Words
import PegFront.Proofs.Regrouping
import PegFront.Proofs.Resolution

/-!
# Identifiers and keywords

At every place of a text the rule for identifiers and the rule for keywords share the longest word that begins
there: the one takes it if it is no keyword, the other one if it is (`word_shared`). Nothing is skipped between the
chars of a word, so it makes no difference where the rules are applied and what may be skipped there.
-/

namespace PegFront

variable {V : Type}

/-! ## What a rule takes -/

/-- The invocations of a rule from `s` that end have the match `m`, end at `c` and leave `values` on the stack; and
there is one. -/
def Comes (rules : Array (Rule V)) (id : RuleId) (s : State V) (m : Match) (c : Cursor) (values : List V) : Prop :=
  (∃ t, RuleEnds rules id s (.ok m) t) ∧ ∀ result t, RuleEnds rules id s result t →
    result = .ok m ∧ t.scanner.cursor = c ∧ t.stack = s.stack.pushAll values

/-- The rule matches the text `x` from `s`, and leaves the values of its span. -/
def Takes (rules : Array (Rule V)) (id : RuleId) (s : State V) (x : List Char) (values : Span → List V) : Prop :=
  ∃ c, s.scanner.cursor.Spans x c ∧ Comes rules id s (.hit (Text.byteLength x)) c
    (values ⟨s.scanner.input.fileIndex, s.scanner.offset, c.offset⟩)

/-- The rule matches nothing from `s`, and leaves the place and the stack. -/
def Refuses (rules : Array (Rule V)) (id : RuleId) (s : State V) : Prop :=
  Comes rules id s .miss s.scanner.cursor []

section
variable {rules : Array (Rule V)} {id : RuleId} {s : State V} {x y : List Char} {values values' : Span → List V}

theorem Takes.text_eq (h : Takes rules id s x values) (h' : Takes rules id s y values') : x = y := by
  obtain ⟨c, hx, ⟨t, ht⟩, hall⟩ := h
  obtain ⟨c', hy, -, hall'⟩ := h'
  obtain rfl : c = c' := (hall _ _ ht).2.1.symm.trans (hall' _ _ ht).2.1
  exact List.append_cancel_right (hx.rest.symm.trans hy.rest)

theorem Takes.not_refuses (h : Takes rules id s x values) : ¬ Refuses rules id s := by
  obtain ⟨c, -, ⟨t, ht⟩, -⟩ := h
  intro h'
  cases (h'.2 _ _ ht).1

variable {rule : Rule V} {ctx : Context V} {d : Cursor}

theorem args_length (ha : rule.arity = 0) : ([] : List V).length = rule.arity := ha.symm

variable (hl : ∀ (id : RuleId) rule, rules[id]? = some rule → rule.definition.Linked rules rule)
  (hr : rules[id]? = some rule) (ha : rule.arity = 0) (hready : SkipReady rules s)
  (hs : s.scanner.cursor.In s.scanner.input)
include hl hr ha hready hs

theorem takes_of_derives (hx : s.scanner.cursor.Spans x d)
    (h : Derives (s.world rules) s.scanner.skipsWith (.rule id []) s.scanner.cursor (.hit ctx d))
    (hvalues : values ⟨s.scanner.input.fileIndex, s.scanner.offset, d.offset⟩ = rule.results ctx) :
    Takes rules id s x values := by
  obtain ⟨⟨m, t, ht⟩, hall⟩ := h.ruleEnds hl hready.canSkip hr (args_length ha) (State.at_cursor rules hs) rfl nofun
  have hlength : d.offset - s.scanner.offset = Text.byteLength x := by
    have := hx.offset
    rw [Scanner.offset]
    omega
  have hends : ∀ result t, RuleEnds rules id s result t → result = .ok (.hit (Text.byteLength x)) ∧
      t.scanner.cursor = d ∧ t.stack = s.stack.pushAll (rule.results ctx) := by
    intro result t ht
    obtain ⟨m, rfl, hm, -, -, hat, -, hstack⟩ := hall _ _ ht
    exact ⟨by rw [hm, hlength], hat.cursor, hstack⟩
  obtain ⟨hm, -⟩ := hends _ _ ht
  exact ⟨d, hx, ⟨t, hm ▸ ht⟩, hvalues ▸ hends⟩

theorem refuses_of_derives
    (h : Derives (s.world rules) s.scanner.skipsWith (.rule id []) s.scanner.cursor (.miss ctx)) :
    Refuses rules id s := by
  obtain ⟨⟨m, t, ht⟩, hall⟩ := h.ruleEnds hl hready.canSkip hr (args_length ha) (State.at_cursor rules hs) rfl nofun
  have hends : ∀ result t, RuleEnds rules id s result t →
      result = .ok .miss ∧ t.scanner.cursor = s.scanner.cursor ∧ t.stack = s.stack := by
    intro result t ht
    obtain ⟨m, rfl, rfl, hat, -, hstack⟩ := hall _ _ ht
    exact ⟨rfl, hat.cursor, hstack⟩
  obtain ⟨hm, -⟩ := hends _ _ ht
  exact ⟨⟨t, hm ▸ ht⟩, hends⟩

end

namespace Cminor

/-! ## Longest words -/

/-- The longest word at the start of the text `t`. -/
structure LongestWord (t w : List Char) : Prop where
  word : isWord w = true
  begins : w <+: t
  longest : ∀ w', isWord w' = true → w' <+: t → w'.length ≤ w.length

section
variable {c d : Cursor} {t w w' x : List Char}

theorem LongestWord.unique (h : LongestWord t w) (h' : LongestWord t w') : w = w' :=
  (List.prefix_of_prefix_length_le h.begins h'.begins (h'.longest w h.word h.begins)).eq_of_length_le
    (h.longest w' h'.word h'.begins)

theorem longestWord_of_end (hx : isWord x = true) (hend : WordEnd t) : LongestWord (x ++ t) x where
  word := hx
  begins := List.prefix_append x t
  longest := by
    rintro w hw ⟨r, hr⟩
    obtain ⟨y, rfl, -⟩ | ⟨y, rfl, ht⟩ := List.append_eq_append_iff.1 hr
    · simp
    · cases y with
      | nil => simp
      | cons ch y =>
        -- The word would go on behind its end.
        have hch := hend ch (by rw [ht]; rfl)
        rw [all_of_isWord hw ch (by simp)] at hch
        cases hch

theorem LongestWord.exists_end (h : LongestWord t w) : ∃ r, t = w ++ r ∧ WordEnd r := by
  obtain ⟨r, rfl⟩ := h.begins
  refine ⟨r, rfl, fun ch hch => ?_⟩
  cases r with
  | nil => cases hch
  | cons ch' r =>
    cases hch
    rw [Bool.eq_false_iff]
    intro hword
    have hlonger : isWord (w ++ [ch]) = true := by
      cases w with
      | nil => cases h.word
      | cons a w =>
        obtain ⟨hstart, hall⟩ := isWord_cons.1 h.word
        exact isWord_cons.2 ⟨hstart, List.forall_mem_append.2 ⟨hall, by simpa using hword⟩⟩
    have hle := h.longest _ hlonger ⟨r, by simp⟩
    rw [List.length_append, List.length_singleton] at hle
    omega

theorem longestWord_iff (hc : c.Spans x d) : LongestWord c.rest x ↔ isWord x = true ∧ WordEnd d.rest := by
  constructor
  · intro h
    obtain ⟨r, hr, hend⟩ := h.exists_end
    obtain rfl : d.rest = r := List.append_cancel_left (hc.rest.symm.trans hr)
    exact ⟨h.word, hend⟩
  · rintro ⟨hx, hend⟩
    exact hc.rest ▸ longestWord_of_end hx hend

theorem LongestWord.exists_spans (h : LongestWord c.rest w) : ∃ d, c.Spans w d ∧ WordEnd d.rest := by
  obtain ⟨d, hd⟩ := Cursor.exists_spans h.begins
  exact ⟨d, hd, ((longestWord_iff hd).1 h).2⟩

end

/-! ## The two rules -/

section
variable {rules : Array (Rule Value)} {s : State Value} {w : List Char} (hrules : rules = table)
  (hready : SkipReady rules s) (hs : s.scanner.cursor.In s.scanner.input)
include hrules hready hs

theorem identifier_takes (h : LongestWord s.scanner.cursor.rest w) (hkey : isKeyword (String.ofList w) = false) :
    Takes rules (idOf "Identifier") s w fun span => [.identifier ⟨String.ofList w, span⟩] := by
  obtain ⟨d, hd, hend⟩ := h.exists_spans
  subst hrules
  have hname : isName w = true := by rw [isName, h.word, hkey]; rfl
  have hyields : Yields (s.world table) s.scanner.skipsWith "Identifier" [] s.scanner.cursor _ d :=
    name_hit rfl hname hd hend
  obtain ⟨ctx, hvalue, hderives⟩ := hyields
  refine takes_of_derives table_linked table_name rfl hready hs hd hderives ?_
  rw [Rule.results, hvalue]
  rfl

theorem identifier_refuses
    (h : ∀ w, LongestWord s.scanner.cursor.rest w → isKeyword (String.ofList w) = true) :
    Refuses rules (idOf "Identifier") s := by
  subst hrules
  have hmisses : Misses (s.world table) s.scanner.skipsWith "Identifier" [] s.scanner.cursor :=
    name_miss rfl fun x d hx hd hend => List.contains_iff_mem.1 (h x ((longestWord_iff hd).2 ⟨hx, hend⟩))
  obtain ⟨ctx, hderives⟩ := hmisses
  exact refuses_of_derives table_linked table_name rfl hready hs hderives

theorem keyword_takes (h : LongestWord s.scanner.cursor.rest w) (hkey : isKeyword (String.ofList w) = true) :
    Takes rules (idOf "Keyword") s w fun _ => [] := by
  obtain ⟨d, hd, hend⟩ := h.exists_spans
  subst hrules
  have hderives : Derives (s.world table) s.scanner.skipsWith (.rule (idOf "Keyword") []) s.scanner.cursor
      (.hit ⟨[], none, s.scanner.cursor.offset⟩ d) :=
    .rule_plain table_keyword rfl rfl (ofWords_hit rfl rfl h.word hd hend (List.contains_iff_mem.1 hkey))
  exact takes_of_derives table_linked table_keyword rfl hready hs hd hderives rfl

theorem keyword_refuses
    (h : ∀ w, LongestWord s.scanner.cursor.rest w → isKeyword (String.ofList w) = false) :
    Refuses rules (idOf "Keyword") s := by
  subst hrules
  have hderives : Derives (s.world table) s.scanner.skipsWith (.rule (idOf "Keyword") []) s.scanner.cursor
      (.miss ⟨[], none, s.scanner.cursor.offset⟩) :=
    .rule_plain table_keyword rfl rfl (ofWords_miss rfl rfl fun x d hx hd hend hmem => by
      have hno := h x ((longestWord_iff hd).2 ⟨hx, hend⟩)
      rw [isKeyword, List.contains_iff_mem.2 hmem] at hno
      cases hno)
  exact refuses_of_derives table_linked table_keyword rfl hready hs hderives

end

/-- Every longest word is taken by one of the rules for identifiers and keywords, by the first one if it is no
keyword and by the second one if it is. Both refuse where no word begins. Neither depends on what may be skipped. -/
theorem word_shared : ∃ d identifier keyword, domain = .ok d ∧
    Numbered d.rules Identifiers.grammarName "Identifier" identifier ∧
    Numbered d.rules Keywords.grammarName "Keyword" keyword ∧
    ∀ s : State Value, SkipReady d.rules s → s.scanner.cursor.In s.scanner.input →
      (∀ w, (Takes d.rules identifier s w fun span => [.identifier ⟨String.ofList w, span⟩]) ↔
        LongestWord s.scanner.cursor.rest w ∧ isKeyword (String.ofList w) = false) ∧
      (∀ w, (Takes d.rules keyword s w fun _ => []) ↔
        LongestWord s.scanner.cursor.rest w ∧ isKeyword (String.ofList w) = true) ∧
      (Refuses d.rules identifier s ↔
        ∀ w, LongestWord s.scanner.cursor.rest w → isKeyword (String.ofList w) = true) ∧
      (Refuses d.rules keyword s ↔
        ∀ w, LongestWord s.scanner.cursor.rest w → isKeyword (String.ofList w) = false) := by
  obtain ⟨d, hd, -⟩ := exists_domain
  have htab := domain_tabulated
  rw [hd] at htab
  have hrules := rules_eq_table hd htab
  refine ⟨d, idOf "Identifier", idOf "Keyword", hd, ⟨_, hrules ▸ table_name, rfl, rfl⟩,
    ⟨_, hrules ▸ table_keyword, rfl, rfl⟩, fun s hready hs => ?_⟩
  -- Where a rule does not take a word, it refuses.
  have hidentifier (h : ¬ Refuses d.rules (idOf "Identifier") s) :
      ∃ w, LongestWord s.scanner.cursor.rest w ∧ isKeyword (String.ofList w) = false := by
    by_contra hno
    exact h (identifier_refuses hrules hready hs fun w hw => by
      by_contra hkey
      exact hno ⟨w, hw, Bool.eq_false_iff.2 hkey⟩)
  have hkeyword (h : ¬ Refuses d.rules (idOf "Keyword") s) :
      ∃ w, LongestWord s.scanner.cursor.rest w ∧ isKeyword (String.ofList w) = true := by
    by_contra hno
    exact h (keyword_refuses hrules hready hs fun w hw => by
      by_contra hkey
      exact hno ⟨w, hw, Bool.eq_true_of_not_eq_false hkey⟩)
  refine ⟨fun w => ⟨fun h => ?_, fun h => identifier_takes hrules hready hs h.1 h.2⟩,
    fun w => ⟨fun h => ?_, fun h => keyword_takes hrules hready hs h.1 h.2⟩,
    ⟨fun h w hw => ?_, identifier_refuses hrules hready hs⟩,
    ⟨fun h w hw => ?_, keyword_refuses hrules hready hs⟩⟩
  · obtain ⟨w', hw', hkey⟩ := hidentifier h.not_refuses
    obtain rfl := h.text_eq (identifier_takes hrules hready hs hw' hkey)
    exact ⟨hw', hkey⟩
  · obtain ⟨w', hw', hkey⟩ := hkeyword h.not_refuses
    obtain rfl := h.text_eq (keyword_takes hrules hready hs hw' hkey)
    exact ⟨hw', hkey⟩
  · by_contra hkey
    exact (identifier_takes hrules hready hs hw (Bool.eq_false_iff.2 hkey)).not_refuses h
  · by_contra hkey
    exact (keyword_takes hrules hready hs hw (Bool.eq_true_of_not_eq_false hkey)).not_refuses h

/-- A word that begins with a keyword, in a token, and a keyword, where blanks may be skipped. -/
theorem word_shared_if :
    let at_start (depth : Nat) (text : String) : State Value :=
      ⟨{ Scanner.new (.whole text.toList 0 "f") with skipRule := blanks, tokenDepth := depth }, .empty, .empty⟩
    ∃ d identifier keyword, domain = .ok d ∧
      Numbered d.rules Identifiers.grammarName "Identifier" identifier ∧
      Numbered d.rules Keywords.grammarName "Keyword" keyword ∧
      (∀ depth text, SkipReady d.rules (at_start depth text) ∧
        (at_start depth text).scanner.cursor.In (at_start depth text).scanner.input) ∧
      (Takes d.rules identifier (at_start 1 "ifs(") ['i', 'f', 's'] fun span => [.identifier ⟨"ifs", span⟩]) ∧
      Refuses d.rules keyword (at_start 1 "ifs(") ∧
      (Takes d.rules keyword (at_start 0 "if(") ['i', 'f'] fun _ => []) ∧
      Refuses d.rules identifier (at_start 0 "if(") := by
  intro at_start
  obtain ⟨d, identifier, keyword, hd, hidentifier, hkeyword, h⟩ := word_shared
  have htab := domain_tabulated
  rw [hd] at htab
  have hready (depth : Nat) (text : String) : SkipReady d.rules (at_start depth text) := by
    rintro _ ⟨⟩
    exact ⟨_, rules_eq_table hd htab ▸ table_lexical Lexical.gap_mem, rfl⟩
  have hs (depth : Nat) (text : String) :
      (at_start depth text).scanner.cursor.In (at_start depth text).scanner.input := Scanner.new_whole_in _ _ _
  have hrest (depth : Nat) (text : String) : (at_start depth text).scanner.cursor.rest = text.toList :=
    congrArg Cursor.rest (Input.cursorAt_whole _ _ _)
  have hend : WordEnd ['('] := by
    rintro _ ⟨⟩
    decide
  have hname : LongestWord (at_start 1 "ifs(").scanner.cursor.rest ['i', 'f', 's'] :=
    hrest _ _ ▸ longestWord_of_end (x := ['i', 'f', 's']) (by decide) hend
  have hkey : LongestWord (at_start 0 "if(").scanner.cursor.rest ['i', 'f'] :=
    hrest _ _ ▸ longestWord_of_end (x := ['i', 'f']) (by decide) hend
  obtain ⟨takes, -, -, refuses⟩ := h _ (hready 1 "ifs(") (hs 1 "ifs(")
  obtain ⟨-, takes', refuses', -⟩ := h _ (hready 0 "if(") (hs 0 "if(")
  refine ⟨d, identifier, keyword, hd, hidentifier, hkeyword, fun depth text => ⟨hready depth text, hs depth text⟩,
    (takes _).2 ⟨hname, by decide⟩, refuses.2 fun w hw => ?_, (takes' _).2 ⟨hkey, by decide⟩,
    refuses'.2 fun w hw => ?_⟩
  · rw [hw.unique hname]
    decide
  · rw [hw.unique hkey]
    decide

end Cminor

end PegFront
