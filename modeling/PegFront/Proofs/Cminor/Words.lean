import PegFront.Proofs.Cminor.Blanks

/-!
# Words

A word begins with a letter or an underscore and goes on as long as it can. The rules for words, keywords and
names are total: each of them hits or misses at every place, by the word that begins there.
-/

namespace PegFront

variable {V : Type}

/-- The span between two places. -/
def World.span (w : World V) (c d : Cursor) : Span := ⟨w.fileIndex, c.offset, d.offset⟩

theorem World.matched_of_spans (w : World V) {c d : Cursor} {x : List Char} (h : c.Spans x d) :
    w.matched c d = ⟨String.ofList x, w.span c d, w.file⟩ := by
  rw [World.matched, h.textTo]
  rfl

namespace Cminor

/-- The rule with a name ends at `d` with a value. -/
def Yields (w : World Value) (skip : Option RuleId) (name : String) (args : List Value) (c : Cursor) (v : Value)
    (d : Cursor) : Prop :=
  ∃ ctx, ctx.value = some v ∧ Derives w skip (.rule (idOf name) args) c (.hit ctx d)

/-- The rule with a name misses. -/
def Misses (w : World Value) (skip : Option RuleId) (name : String) (args : List Value) (c : Cursor) : Prop :=
  ∃ ctx, Derives w skip (.rule (idOf name) args) c (.miss ctx)

/-- The rule with a name fails for good. -/
def Stops (w : World Value) (skip : Option RuleId) (name : String) (args : List Value) (c : Cursor) : Prop :=
  Derives w skip (.rule (idOf name) args) c .stop

section
variable {w : World Value} {skip : Option RuleId} {name : String} {args : List Value} {c d e : Cursor} {v v' : Value}
  {caller callee : Rule Value} {k : Call} {ctx : Context Value}

theorem Yields.unique (h : Yields w skip name args c v d) (h' : Yields w skip name args c v' e) : v = v' ∧ d = e := by
  obtain ⟨ctx, hv, hd⟩ := h
  obtain ⟨ctx', hv', hd'⟩ := h'
  cases hd.unique hd'
  exact ⟨Option.some.inj (hv.symm.trans hv'), rfl⟩

theorem Yields.not_misses (h : Yields w skip name args c v d) : ¬ Misses w skip name args c := by
  rintro ⟨ctx, hm⟩
  obtain ⟨ctx', -, hd⟩ := h
  cases hd.unique hm

theorem Yields.call (h : Yields w skip name args c v d) (hw : w.rules = table)
    (hc : table[idOf name]? = some callee) (hv : callee.hasValue = true) (ht : k.target = some (idOf name))
    (ha : caller.argumentsOf k ctx = args) (hl : args.length = k.arity) :
    Derives w skip (.pattern caller (.call k) ctx) c (.hit (caller.takeUp k.label ctx v) d) := by
  obtain ⟨ctx', hv', hd⟩ := h
  subst ha
  exact .call_value ht (hw ▸ hc) hl hv hd hv'

theorem Misses.call (h : Misses w skip name args c) (ht : k.target = some (idOf name))
    (ha : caller.argumentsOf k ctx = args) (hl : args.length = k.arity) :
    Derives w skip (.pattern caller (.call k) ctx) c (.miss ctx) := by
  obtain ⟨ctx', hd⟩ := h
  subst ha
  exact .call_miss ht hl hd

theorem Stops.call (h : Stops w skip name args c) (ht : k.target = some (idOf name))
    (ha : caller.argumentsOf k ctx = args) (hl : args.length = k.arity) :
    Derives w skip (.pattern caller (.call k) ctx) c .stop := by
  subst ha
  exact .call_stop ht hl h

theorem yields_of_call {ctx' : Context Value} (hw : w.rules = table) (hc : table[idOf name]? = some callee)
    (hv : callee.hasValue = true) (ht : k.target = some (idOf name))
    (h : Derives w skip (.pattern caller (.call k) ctx) c (.hit ctx' d)) :
    ∃ v, ctx' = caller.takeUp k.label ctx v ∧ Yields w skip name (caller.argumentsOf k ctx) c v d := by
  obtain ⟨ctx₁, h₁, rfl⟩ := Derives.call_inv ht (hw ▸ hc) h
  obtain ⟨v, hv₁⟩ : ∃ v, ctx₁.value = some v := by
    cases h₁ with
    | rule_hit hr ha h hv' =>
      cases (hw ▸ hc : w.rules[idOf name]? = some callee).symm.trans hr
      exact Option.isSome_iff_exists.1 (hv' hv)
  refine ⟨v, ?_, ctx₁, hv₁, h₁⟩
  simp only [Rule.receive, hv, hv₁]

theorem yields_of (hw : w.rules = table) (hr : table[idOf name]? = some callee) (ha : args.length = callee.arity)
    (h : Derives w skip (.pattern callee callee.definition (.enter callee.attributes args c.offset)) c (.hit ctx d))
    (hv : ctx.value = some v) : Yields w skip name args c v d :=
  ⟨ctx, hv, .rule_hit (hw ▸ hr) ha h fun _ => by rw [hv]; rfl⟩

theorem misses_of (hw : w.rules = table) (hr : table[idOf name]? = some callee) (ha : args.length = callee.arity)
    (h : Derives w skip (.pattern callee callee.definition (.enter callee.attributes args c.offset)) c (.miss ctx)) :
    Misses w skip name args c :=
  ⟨ctx, .rule_miss (hw ▸ hr) ha h⟩

theorem stops_of (hw : w.rules = table) (hr : table[idOf name]? = some callee) (ha : args.length = callee.arity)
    (h : Derives w skip (.pattern callee callee.definition (.enter callee.attributes args c.offset)) c .stop) :
    Stops w skip name args c :=
  .rule_stop (hw ▸ hr) ha h

end

/-! ## Rules that choose -/

theorem aimed_choice (p : Pattern) (ps : List Pattern) :
    aimed (.choice (p :: ps)) = .choice (aimed p :: ps.map aimed) := by
  show aimed (ps.foldl .alt p) = (ps.map aimed).foldl .alt (aimed p)
  induction ps generalizing p with
  | nil => rfl
  | cons q ps ih => exact ih (.alt p q)

/-- The rule with a name gives the value of the first of other rules that hits. -/
structure Chooses (name : String) (names : List String) (rule : Rule Value) : Prop where
  place : table[idOf name]? = some rule
  plain : rule.attributes = []
  nonempty : names ≠ []
  definition : rule.definition = .choice (names.map fun n => aimed (.rule n))
  each : ∀ n ∈ names, calledName n = n ∧ rule.preCall? n = none ∧
    (∃ callee, table[idOf n]? = some callee ∧ callee.hasValue = true) ∧
    ∀ ctx v, rule.takeUp n ctx v = ctx.setValue v

namespace Chooses

variable {w : World Value} {skip : Option RuleId} {name n : String} {names : List String} {rule : Rule Value}
  {c d : Cursor} {v : Value} {ctx ctx' : Context Value}

theorem miss (h : Chooses name names rule) (hn : n ∈ names) (hm : Misses w skip n [] c) :
    Derives w skip (.pattern rule (aimed (.rule n)) ctx) c (.miss ctx) := by
  obtain ⟨hcall, hpre, -, -⟩ := h.each n hn
  refine hm.call (k := ⟨n, n, 0, some (idOf (calledName n))⟩) (by rw [hcall]) ?_ rfl
  simp only [Rule.argumentsOf, hpre]

/-- The first alternative that does not miss decides. -/
theorem decided (h : Chooses name names rule) (before : List String) {after : List String}
    (hl : names = before ++ n :: after) (hm : ∀ m ∈ before, Misses w skip m [] c) {r : Answer Value}
    (hr : ∀ ctx, r ≠ .miss ctx) (hn : Derives w skip (.pattern rule (aimed (.rule n)) ctx) c r) :
    Derives w skip (.pattern rule rule.definition ctx) c r := by
  rw [h.definition, hl, List.map_append, List.map_cons]
  refine .choice_first hr (fun q hq => ?_) hn _
  obtain ⟨m, hmem, rfl⟩ := List.mem_map.1 hq
  exact h.miss (by rw [hl]; exact List.mem_append_left _ hmem) (hm m hmem)

theorem first (h : Chooses name names rule) (hw : w.rules = table) (before : List String) {after : List String}
    (hl : names = before ++ n :: after) (hm : ∀ m ∈ before, Misses w skip m [] c) (hy : Yields w skip n [] c v d) :
    Yields w skip name [] c v d := by
  obtain ⟨hcall, hpre, ⟨callee, ht, hv⟩, htake⟩ := h.each n (by rw [hl]; simp)
  have halt : Derives w skip (.pattern rule (aimed (.rule n)) (.enter rule.attributes [] c.offset)) c
      (.hit ((Context.enter rule.attributes [] c.offset).setValue v) d) := by
    rw [← htake]
    refine hy.call (k := ⟨n, n, 0, some (idOf (calledName n))⟩) hw ht hv (by rw [hcall]) ?_ rfl
    simp only [Rule.argumentsOf, hpre]
  exact yields_of hw h.place (by simp [Rule.arity, h.plain]) (h.decided before hl hm (fun _ h => by cases h) halt) rfl

/-- An alternative that fails for good is the last one tried. -/
theorem stop (h : Chooses name names rule) (hw : w.rules = table) (before : List String) {after : List String}
    (hl : names = before ++ n :: after) (hm : ∀ m ∈ before, Misses w skip m [] c)
    (hn : Stops w skip n [] c) : Stops w skip name [] c := by
  obtain ⟨hcall, hpre, -, -⟩ := h.each n (by rw [hl]; simp)
  refine stops_of hw h.place (by simp [Rule.arity, h.plain]) (h.decided before hl hm (fun _ h => by cases h) ?_)
  refine hn.call (k := ⟨n, n, 0, some (idOf (calledName n))⟩) (by rw [hcall]) ?_ rfl
  simp only [Rule.argumentsOf, hpre]

theorem none (h : Chooses name names rule) (hw : w.rules = table) (hm : ∀ m ∈ names, Misses w skip m [] c) :
    Misses w skip name [] c := by
  have hdef : Derives w skip (.pattern rule rule.definition (.enter rule.attributes [] c.offset)) c
      (.miss (.enter rule.attributes [] c.offset)) := by
    rw [h.definition]
    refine .choice_miss (by simpa using h.nonempty) fun q hq => ?_
    obtain ⟨m, hmem, rfl⟩ := List.mem_map.1 hq
    exact h.miss hmem (hm m hmem)
  exact misses_of hw h.place (by simp [Rule.arity, h.plain]) hdef

/-- A value is that of one of the alternatives. -/
theorem inv (h : Chooses name names rule) (hw : w.rules = table) (hy : Yields w skip name [] c v d) :
    ∃ n ∈ names, Yields w skip n [] c v d := by
  obtain ⟨ctx, hv, hy⟩ := hy
  have hdef := Derives.rule_inv (hw ▸ h.place) hy
  rw [h.definition] at hdef
  obtain ⟨p, hp, ctx₁, halt⟩ := Derives.choice_inv (by simpa using h.nonempty) hdef
  obtain ⟨n, hn, rfl⟩ := List.mem_map.1 hp
  obtain ⟨hcall, hpre, ⟨callee, ht, hvalue⟩, htake⟩ := h.each n hn
  obtain ⟨v', rfl, hn'⟩ := yields_of_call (k := ⟨n, n, 0, some (idOf (calledName n))⟩) hw ht hvalue (by rw [hcall]) halt
  have htaken : ((rule.takeUp n ctx₁ v').value) = some v' := by rw [htake]; rfl
  obtain rfl : v' = v := Option.some.inj (htaken.symm.trans hv)
  exact ⟨n, hn, by simpa only [Rule.argumentsOf, hpre] using hn'⟩

end Chooses

/-! ## Words -/

def isWord : List Char → Bool
  | [] => false
  | c :: t => Text.isWordStart c && t.all Text.isWordChar

/-- No word goes on here. -/
def WordEnd (t : List Char) : Prop := ∀ c ∈ t.head?, Text.isWordChar c = false

/-- No word begins here. -/
def NoWord (t : List Char) : Prop := ∀ c ∈ t.head?, Text.isWordStart c = false

theorem isWordChar_of_start {c : Char} (h : Text.isWordStart c = true) : Text.isWordChar c = true := by
  unfold Text.isWordStart Text.isAlphabetic at h
  unfold Text.isWordChar Text.isAlphanumeric Char.isAlphanum
  grind

theorem wordEnd_iff {d : Cursor} : (d.next?.any fun (ch, _) => Text.isWordChar ch) = false ↔ WordEnd d.rest := by
  rw [Cursor.next?_any, Option.any_eq_false]
  rfl

theorem WordEnd.noWord {t : List Char} (h : WordEnd t) : NoWord t := by
  intro c hc
  have := h c hc
  cases hs : Text.isWordStart c with
  | false => rfl
  | true => exact (isWordChar_of_start hs).symm.trans this

theorem isWord_cons {c : Char} {t : List Char} :
    isWord (c :: t) = true ↔ Text.isWordStart c = true ∧ ∀ d ∈ t, Text.isWordChar d = true := by
  rw [isWord, Bool.and_eq_true, List.all_eq_true]

theorem all_of_isWord {x : List Char} (h : isWord x = true) : ∀ c ∈ x, Text.isWordChar c = true := by
  cases x with
  | nil => nofun
  | cons c t =>
    rw [isWord_cons] at h
    intro d hd
    rcases List.mem_cons.1 hd with rfl | hd
    · exact isWordChar_of_start h.1
    · exact h.2 d hd

/-- A word begins at every place, or none. -/
theorem word_or_not (c : Cursor) :
    (∃ x d, isWord x = true ∧ c.Spans x d ∧ WordEnd d.rest) ∨ NoWord c.rest := by
  rcases hr : c.rest with _ | ⟨ch, t⟩
  · exact .inr nofun
  cases hs : Text.isWordStart ch with
  | false => exact .inr (by rintro _ ⟨⟩; exact hs)
  | true =>
    have hd : c.Spans [ch] ⟨c.offset + Text.byteLength [ch], t⟩ := ⟨hr, rfl⟩
    obtain ⟨x, e, hx, hall, hend⟩ := Cursor.exists_run .wordChar ⟨c.offset + Text.byteLength [ch], t⟩
    exact .inl ⟨ch :: x, e, isWord_cons.2 ⟨hs, hall⟩, hd.trans hx, hend⟩

/-- Of two runs of word chars at one place that end there, there is only one. -/
theorem run_unique {p : Char → Bool} {x x' y y' : List Char} (hx : ∀ c ∈ x, p c = true) (hx' : ∀ c ∈ x', p c = true)
    (hy : ∀ c ∈ y.head?, p c = false) (hy' : ∀ c ∈ y'.head?, p c = false) (h : x ++ y = x' ++ y') :
    x = x' ∧ y = y' := by
  induction x generalizing x' with
  | nil =>
    cases x' with
    | nil => exact ⟨rfl, h⟩
    | cons c x' =>
      have := hy c (by rw [show y = c :: (x' ++ y') from h]; rfl)
      rw [hx' c List.mem_cons_self] at this
      cases this
  | cons c x ih =>
    cases x' with
    | nil =>
      have := hy' c (by rw [show y' = c :: (x ++ y) from h.symm]; rfl)
      rw [hx c List.mem_cons_self] at this
      cases this
    | cons c' x' =>
      obtain ⟨rfl, htail⟩ : c = c' ∧ x ++ y = x' ++ y' := by simpa using h
      obtain ⟨rfl, rfl⟩ := ih (fun d hd => hx d (List.mem_cons_of_mem _ hd))
        (fun d hd => hx' d (List.mem_cons_of_mem _ hd)) htail
      exact ⟨rfl, rfl⟩

section
variable {w : World Value} {skip : Option RuleId} {c d : Cursor} {x : List Char} {rule : Rule Value}
  {ctx : Context Value}

/-! ## Keywords as terminals -/

theorem keyword_hit {word : String} (hc : c.Spans word.toList d) (hd : WordEnd d.rest) :
    Derives w skip (.pattern rule (.keyword word) ctx) c (.hit ctx d) :=
  .keyword_hit (Cursor.after?_eq_some_iff.2 hc) (wordEnd_iff.2 hd)

theorem keyword_miss {word : String} (h : ∀ d, c.Spans word.toList d → ¬ WordEnd d.rest) :
    Derives w skip (.pattern rule (.keyword word) ctx) c (.miss ctx) :=
  .keyword_miss fun d hd =>
    (Bool.eq_false_or_eq_true _).resolve_right fun hend => h d (Cursor.after?_eq_some_iff.1 hd) (wordEnd_iff.1 hend)

/-- Where another word stands, a keyword misses. -/
theorem keyword_miss_word {word : String} (hw : isWord word.toList = true) (hx : isWord x = true) (hc : c.Spans x d)
    (hd : WordEnd d.rest) (hne : x ≠ word.toList) :
    Derives w skip (.pattern rule (.keyword word) ctx) c (.miss ctx) := by
  refine keyword_miss fun e he hend => hne ?_
  exact (run_unique (all_of_isWord hx) (all_of_isWord hw) hd hend (hc.rest.symm.trans he.rest)).1

theorem keyword_miss_noWord {word : String} (hw : isWord word.toList = true) (hc : NoWord c.rest) :
    Derives w skip (.pattern rule (.keyword word) ctx) c (.miss ctx) := by
  refine keyword_miss fun e he _ => ?_
  cases hword : word.toList with
  | nil => rw [hword] at hw; cases hw
  | cons ch t =>
    rw [hword] at hw he
    have := hc ch (by rw [he.rest]; rfl)
    rw [(isWord_cons.1 hw).1] at this
    cases this

/-! ## Identifiers of the lexical grammar -/

theorem identifier_mem : Rule.new "identifier" Lexical.identifier ∈ (Lexical.grammar : GrammarDecl Value).rules := by
  simp [Lexical.grammar]

theorem identifier_hit (hx : isWord x = true) (hc : c.Spans x d) (hd : WordEnd d.rest) :
    Derives w skip (.pattern (lexical "identifier" Lexical.identifier) (aimed Lexical.identifier) ctx) c
      (.hit ctx d) := by
  cases x with
  | nil => cases hx
  | cons ch x =>
    obtain ⟨c₁, h₁, h₂⟩ := Cursor.spans_append.1 (show c.Spans ([ch] ++ x) d from hc)
    obtain ⟨hs, hall⟩ := isWord_cons.1 hx
    exact .token (.seq_tight (.one_of_spans h₁ hs) (.many (.rounds_chars .wordChar hall h₂ hd true)))

theorem identifier_miss (hc : NoWord c.rest) :
    Derives w skip (.pattern (lexical "identifier" Lexical.identifier) (aimed Lexical.identifier) ctx) c
      (.miss ctx) :=
  .token (.seq_first (.one_of_head hc))

/-- The word of the lexical grammar, called from another grammar. -/
theorem identifier_call_hit (hw : w.rules = table) (hp : rule.preCall? "identifier" = none) (hx : isWord x = true)
    (hc : c.Spans x d) (hd : WordEnd d.rest) :
    Derives w skip (.pattern rule (aimed (.rule "identifier")) ctx) c (.hit ctx d) :=
  lexical_call hw identifier_mem rfl hp (identifier_hit hx hc hd)

theorem identifier_call_miss (hw : w.rules = table) (hp : rule.preCall? "identifier" = none) (hc : NoWord c.rest) :
    Derives w skip (.pattern rule (aimed (.rule "identifier")) ctx) c (.miss ctx) :=
  lexical_call hw identifier_mem rfl hp (identifier_miss hc)

theorem mem_sorted {words : List String} {x : String} : x ∈ Text.sorted words ↔ x ∈ words := by
  have h : ∀ ws : List String, x ∈ words.foldl (fun ws w => Text.insertSorted w ws) ws ↔ x ∈ ws ∨ x ∈ words := by
    induction words with
    | nil => simp
    | cons word words ih =>
      intro ws
      rw [List.foldl_cons, ih, Text.mem_insertSorted, List.mem_cons]
      exact ⟨by rintro ((h | h) | h) <;> simp [h], by rintro (h | h | h) <;> simp [h]⟩
  simpa [Text.sorted] using h []

/-- Among given words only those hit. -/
theorem ofWords_hit (hw : w.rules = table) {words : List String} (hp : rule.preCall? "identifier" = none)
    (hx : isWord x = true) (hc : c.Spans x d) (hd : WordEnd d.rest) (hmem : String.ofList x ∈ words) :
    Derives w skip (.pattern rule (aimed (.ofWords (.rule "identifier") words)) ctx) c (.hit ctx d) := by
  refine .keywords_hit (identifier_call_hit hw hp hx hc hd) ?_
  rw [hc.textTo, List.contains_iff_mem, mem_sorted]
  exact hmem

theorem ofWords_miss (hw : w.rules = table) {words : List String} (hp : rule.preCall? "identifier" = none)
    (h : ∀ x d, isWord x = true → c.Spans x d → WordEnd d.rest → String.ofList x ∉ words) :
    Derives w skip (.pattern rule (aimed (.ofWords (.rule "identifier") words)) ctx) c (.miss ctx) := by
  obtain ⟨x, d, hx, hc, hd⟩ | hc := word_or_not c
  · refine .keywords_other (identifier_call_hit hw hp hx hc hd) ?_
    rw [hc.textTo, Bool.eq_false_iff, ne_eq, List.contains_iff_mem, mem_sorted]
    exact h x d hx hc hd
  · exact .keywords_miss (identifier_call_miss hw hp hc)

/-! ## Names -/

/-- A word that is no keyword. -/
def isName (x : List Char) : Bool := isWord x && !isKeyword (String.ofList x)

theorem isName_iff : isName x = true ↔ isWord x = true ∧ String.ofList x ∉ keywords := by
  rw [isName, Bool.and_eq_true, Bool.not_eq_true', isKeyword, Bool.eq_false_iff, ne_eq, List.contains_iff_mem]

def keywordRule : Rule Value :=
  linked Keywords.grammarName (.new "Keyword" (.ofWords (.rule "identifier") keywords))

theorem table_keyword : table[idOf "Keyword"]? = some keywordRule :=
  table_idOf Keywords.grammar (by simp [registry_grammars]) (.new "Keyword" (.ofWords (.rule "identifier") keywords))
    (by simp [Keywords.grammar])

def nameRule : Rule Value := linked Identifiers.grammarName Identifiers.identifier

theorem table_name : table[idOf "Identifier"]? = some nameRule :=
  table_idOf Identifiers.grammar (by simp [registry_grammars]) Identifiers.identifier (by simp [Identifiers.grammar])

/-- Keywords are taken off the words. -/
theorem keyword_call {r : Answer Value} (hw : w.rules = table)
    (h : Derives w skip (.pattern keywordRule (aimed (.ofWords (.rule "identifier") keywords)) ⟨[], none, c.offset⟩) c
      r) : Derives w skip (.pattern nameRule (aimed (.rule "Keyword")) ctx) c (r.resume ctx) :=
  .call_plain rfl (hw ▸ table_keyword) rfl rfl rfl (.rule_plain (hw ▸ table_keyword) rfl rfl h)

theorem name_hit (hw : w.rules = table) (hx : isName x = true) (hc : c.Spans x d) (hd : WordEnd d.rest) :
    Yields w skip "Identifier" [] c (.identifier ⟨String.ofList x, w.span c d⟩) d := by
  obtain ⟨hword, hkey⟩ := isName_iff.1 hx
  have hno : Derives w skip (.pattern nameRule (aimed (.rule "Keyword")) ⟨[], none, c.offset⟩) c
      (.miss ⟨[], none, c.offset⟩) := by
    refine keyword_call hw (ofWords_miss hw rfl fun y e hy he hend => ?_)
    rwa [(run_unique (all_of_isWord hy) (all_of_isWord hword) hend hd (he.rest.symm.trans hc.rest)).1]
  refine yields_of hw table_name rfl (.act_pass (.diff_apart (identifier_call_hit hw rfl hword hc hd) hno) rfl rfl) ?_
  rw [w.matched_of_spans hc]
  rfl

theorem name_miss (hw : w.rules = table)
    (h : ∀ x d, isWord x = true → c.Spans x d → WordEnd d.rest → String.ofList x ∈ keywords) :
    Misses w skip "Identifier" [] c := by
  obtain ⟨x, d, hx, hc, hd⟩ | hc := word_or_not c
  · exact misses_of hw table_name rfl (.act_miss (.diff_excluded (identifier_call_hit hw rfl hx hc hd)
      (keyword_call hw (ofWords_hit hw rfl hx hc hd (h x d hx hc hd))) (Nat.le_refl _)))
  · exact misses_of hw table_name rfl (.act_miss (.diff_subject (identifier_call_miss hw rfl hc)))

theorem name_miss_noWord (hw : w.rules = table) (hc : NoWord c.rest) : Misses w skip "Identifier" [] c := by
  refine name_miss hw fun x d hx hd _ => ?_
  cases x with
  | nil => cases hx
  | cons ch x =>
    have := hc ch (by rw [hd.rest]; rfl)
    rw [(isWord_cons.1 hx).1] at this
    cases this

/-- A name is read, or none is there. -/
theorem name_spec (hw : w.rules = table) (skip : Option RuleId) (c : Cursor) :
    (∃ x d, isName x = true ∧ c.Spans x d ∧ WordEnd d.rest ∧
      Yields w skip "Identifier" [] c (.identifier ⟨String.ofList x, w.span c d⟩) d) ∨
    Misses w skip "Identifier" [] c := by
  obtain ⟨x, d, hx, hc, hd⟩ | hc := word_or_not c
  · by_cases hkey : String.ofList x ∈ keywords
    · refine .inr (name_miss hw fun y e hy he hend => ?_)
      rwa [(run_unique (all_of_isWord hy) (all_of_isWord hx) hend hd (he.rest.symm.trans hc.rest)).1]
    · have hname := isName_iff.2 ⟨hx, hkey⟩
      exact .inl ⟨x, d, hname, hc, hd, name_hit hw hname hc hd⟩
  · exact .inr (name_miss_noWord hw hc)

theorem name_inv (hw : w.rules = table) {v : Value} (h : Yields w skip "Identifier" [] c v d) :
    ∃ x, isName x = true ∧ c.Spans x d ∧ WordEnd d.rest ∧ v = .identifier ⟨String.ofList x, w.span c d⟩ := by
  obtain ⟨x, e, hx, hc, hend, hy⟩ | hmiss := name_spec hw skip c
  · obtain ⟨rfl, rfl⟩ := h.unique hy
    exact ⟨x, hx, hc, hend, rfl⟩
  · exact absurd hmiss h.not_misses

end

end Cminor

end PegFront
