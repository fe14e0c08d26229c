import PegFront.Proofs.Cminor.Statements

/-!
# Expressions as statements

An expression and a semicolon make a statement of that expression, unless its first operand fails for good when it is
tried as the target of an assignment (`parseStatement_expression_iff`). That happens only in parentheses, where a literal
follows an operator.
-/

namespace PegFront.Cminor

open Statements

section
variable {w : World Value} {c c₁ c₂ d : Cursor} {o k : Nat} {lv : Bool} {x t : List Char} {e : Expr} {ch : Char}

theorem Beginning.firstWord (h : Beginning x) (ht : WordEnd t) :
    FirstWord (fun s => s ∉ keywords ∨ s ∈ standing) (x ++ t) := by
  have hdotted : ∀ {z u : List Char}, Dotted z → WordEnd u →
      FirstWord (fun s => s ∉ keywords ∨ s ∈ standing) (z ++ u) := by
    intro z u hz hu
    cases hz with
    | name h => exact firstWord_of_word (isName_iff.1 h).1 hu (.inl (isName_iff.1 h).2)
    | more h =>
      rw [List.append_assoc]
      exact firstWord_of_word (isName_iff.1 h).1 (by rintro _ ⟨⟩; decide) (.inl (isName_iff.1 h).2)
  cases h with
  | dotted h => exact hdotted h ht
  | broken hx hz hu =>
    rw [hx, List.append_assoc]
    exact hdotted hz (hu t).word
  | nameless h => exact (h t ht).imp fun _ => .inr

/-- Before a char that ends a statement or the head of a loop. -/
structure Closes (t : List Char) : Prop where
  ends : Ends 0 t
  settles : Settles t
  breaks : Breaks t

theorem Over.closes (ho : Over c d) (hd : d.rest.head? = some ch) (hch : ch = ')' ∨ ch = ';') : Closes c.rest := by
  obtain ⟨g, hg, hs, hsolid⟩ := ho
  obtain ⟨u, hu⟩ := List.head?_eq_some_iff.1 hd
  rw [hs.rest, hu]
  rw [hu] at hsolid
  refine ⟨ends_closing hg (by rcases hch with rfl | rfl <;> simp), settles_closing hg (by rcases hch with rfl | rfl <;> simp),
    breaks_char hg hsolid ?_ ?_⟩ <;> rcases hch with rfl | rfl <;> decide

theorem Reads.part (hw : w.rules = table) (h : Reads w.fileIndex false 0 o x e) (hc : c.Spans x d)
    (ho : c.offset = o) (hd : Ends 0 d.rest) : Part w "Expression" [.mode {}] c (.expr e) d :=
  ⟨expression_yields hw ((h.read hw hc ho).level hd), Spans.moves hc h.nonempty⟩

/-- The first operand of an expression does not fail for good as a target. -/
def Unstopped (f o : Nat) (x : List Char) : Prop :=
  ∀ z u e, x = z ++ u → Reads f false 8 o z e → (u = [] ∨ ∀ t, Settles (u ++ t)) → e.attempt ≠ .stopped

theorem unstopped_of_head {f : Nat} (hx : x.head? ≠ some '(') : Unstopped f o x := by
  rintro z u e rfl hz -
  rw [List.head?_append_of_ne_nil _ hz.nonempty] at hx
  exact hz.attempt_of_head (by decide) hx

/-- An expression is no assignment. -/
theorem Reads.assignment_miss (hw : w.rules = table) (h : Reads w.fileIndex false 0 o x e)
    (hx : Unstopped w.fileIndex o x) (hc : c.Spans x d) (ho : c.offset = o) (hd : Settles d.rest) :
    Misses w blanks "AssignmentBody" [] c := by
  have hmiss : Misses w blanks "Primary" [.mode ⟨true⟩] c → Misses w blanks "AssignmentBody" [] c := fun h =>
    PegFront.Cminor.assignment_miss hw (.inl (misses_of hw table_postfix rfl (.seq_first
      (h.call rfl (argumentsOf_forward rfl rfl) rfl))))
  obtain ⟨ch, y, rfl, hch⟩ | ⟨z, u, e', rfl, hz, hu⟩ := h.leading
  · refine hmiss (primary_miss hw ?_)
    rw [hc.rest]
    rintro _ ⟨⟩ -
    exact hch
  · obtain ⟨d', hcz, hcu⟩ := Cursor.spans_append.1 hc
    have hsettles : Settles d'.rest := by
      rw [hcu.rest]
      rcases hu with rfl | hu
      · exact hd
      · exact hu _
    cases hattempt : e'.attempt with
    | taken =>
      have hyields := ((hz.target hattempt).read hw hcz ho).level hsettles.ends
      exact PegFront.Cminor.assignment_miss hw (.inr ⟨_, d', hyields, hsettles⟩)
    | missed => exact hmiss (hz.missed hw hattempt hcz ho hsettles.ends.token).1
    | stopped => exact absurd hattempt (hx z u e' rfl hz hu)

/-- No alternative before the assignment is taken at an expression. -/
theorem Reads.before_assignment (hw : w.rules = table) (h : Reads w.fileIndex lv k o x e) (hc : c.Spans x d)
    (hd : Breaks d.rest) : ∀ n ∈ "Compound" :: led ++ ["Construction"], Misses w blanks n [] c := by
  intro n hn
  rcases List.mem_append.1 hn with hn | hn
  · refine before_construction hw ?_ ?_ n hn
    · obtain ⟨ch, y, rfl, hch, -⟩ := h.head
      rw [hc.rest]
      rintro ⟨⟩
      revert hch
      decide
    · have hfirst := h.beginning.firstWord hd.word
      rw [← hc.rest] at hfirst
      exact hfirst.notAt (by decide)
  · obtain rfl := List.mem_singleton.1 hn
    exact terminates_construction.miss hw (h.beginning.construction_miss hw hc hd)

theorem Reads.statement_part (hw : w.rules = table) (h : Reads w.fileIndex false 0 o x e)
    (hx : Unstopped w.fileIndex o x) (hc : c.Spans x c₁) (ho : c.offset = o) (hover : Over c₁ c₂)
    (hstop : c₂.Spans [';'] d) :
    Part w "Statement" [] c (.statement ((Statement.expression e (w.span c c₁)).extendTo d.offset)) d := by
  have hhead : c₂.rest.head? = some ';' := by rw [hstop.rest]; rfl
  have hcloses := hover.closes hhead (.inr rfl)
  refine PegFront.Cminor.statement_part hw ("Compound" :: led ++ ["Construction"] ++ ["Assignment"]) rfl ?_
    (terminates_expression.part hw (expression_part hw (h.part hw hc ho hcloses.ends)) hover hstop)
  intro n hn
  rcases List.mem_append.1 hn with hn | hn
  · exact h.before_assignment hw hc hcloses.breaks n hn
  · obtain rfl := List.mem_singleton.1 hn
    exact terminates_assignment.miss hw (h.assignment_miss hw hx hc ho hcloses.settles)

/-- An operand that fails for good as a target ends the attempt to read an assignment. -/
theorem Reads.assignment_stops (hw : w.rules = table) {z : List Char} (hz : Reads w.fileIndex false 8 o z e)
    (he : e.attempt = .stopped) (hcz : c.Spans z c₁) (ho : c.offset = o) (hc₁ : TokenEnd c₁.rest) :
    Stops w blanks "AssignmentBody" [] c := by
  have htarget : Stops w blanks "Postfix" [.mode ⟨true⟩] c := hz.stops hw he hcz ho hc₁
  exact stops_of hw table_assignmentBody rfl (.act_stop (.seq_stop_first (.seq_stop_first (htarget.call rfl rfl rfl))))

/-- At an expression whose first operand fails for good as a target, no statement is read. -/
theorem Reads.statement_stops (hw : w.rules = table) (h : Reads w.fileIndex lv k o x e) (hc : c.Spans x d)
    (hd : Breaks d.rest) (hbody : Stops w blanks "AssignmentBody" [] c) : Stops w blanks "Statement" [] c :=
  chooses_statement.stop hw ("Compound" :: led ++ ["Construction"]) rfl (h.before_assignment hw hc hd)
    (stops_of hw terminates_assignment.place rfl (.act_stop (.seq_stop_first (hbody.call rfl rfl rfl))))

end

/-- The first operand of a text fails for good when it is tried as the target of an assignment. -/
def StopsAsTarget (f : Nat) (t : List Char) : Prop :=
  ∃ lead z rest e, t = lead ++ z ++ rest ∧ Gap lead ∧ Reads f false 8 (Text.byteLength lead) z e ∧ Ends 8 rest ∧
    e.attempt = .stopped

theorem TokenEnd.newline {t : List Char} (h : TokenEnd t) (u : List Char) : TokenEnd (t ++ '\n' :: u) := by
  match t, h with
  | [], _ => exact tokenEnd_of_head (by rintro _ ⟨⟩; decide)
  | [ch], h =>
    refine ⟨h.word, ?_⟩
    rintro _ _ ⟨⟩
    decide
  | ch :: ch' :: t, h =>
    refine ⟨h.word, ?_⟩
    rintro _ _ ⟨⟩
    exact h.fraction ch' t rfl

section
variable {source file : String} {fileIndex : Nat} {e : Expr}

theorem newline_text {lead x trail : List Char} (h : source.toList = lead ++ x ++ trail) :
    (source ++ "\n;").toList = lead ++ (x ++ (trail ++ '\n' :: [';'])) := by
  rw [String.toList_append, h]
  simp

/-- A line break and a semicolon after an expression. -/
theorem over_newline {trail : List Char} (htrail : afterGap trail = some []) (o : Nat) :
    Over ⟨o, trail ++ '\n' :: [';']⟩ ⟨o + Text.byteLength (trail ++ ['\n']), [';']⟩ :=
  over_char (gap_newline htrail) ⟨by simp, rfl⟩ rfl (by decide) (by decide)

theorem parseStatement_ne_ok (h : parseExpression source fileIndex file = .ok e)
    (hstop : StopsAsTarget fileIndex source.toList) (s : Statement) :
    parseStatement (source ++ "\n;") fileIndex file ≠ .ok s := by
  intro hparse
  obtain ⟨lead, x, trail, hsource, hlead, hreads, htrail⟩ := parseExpression_eq_ok_iff.1 h
  obtain ⟨lead', z, rest, e', hsource', hlead', hz, hrest, he'⟩ := hstop
  obtain ⟨v, -, c, ctx, d, last, hskip, hrule, -⟩ := parseFile_eq_ok_iff.1 hparse
  -- Both texts begin where the first gap ends.
  have hat : c = ⟨Text.byteLength lead, x ++ (trail ++ '\n' :: [';'])⟩ := by
    rw [newline_text hsource] at hskip
    cases hskip.unique (skip_gap rfl hlead (exists_cursor 0 lead _) (hreads.solid _) .empty)
    rw [Nat.zero_add]
  have hat' : c = ⟨Text.byteLength lead', z ++ (rest ++ '\n' :: [';'])⟩ := by
    rw [newline_text hsource'] at hskip
    cases hskip.unique (skip_gap rfl hlead' (exists_cursor 0 lead' _) (hz.solid _) .empty)
    rw [Nat.zero_add]
  have hcx : c.Spans x _ := hat ▸ exists_cursor (Text.byteLength lead) x (trail ++ '\n' :: [';'])
  have hcz : c.Spans z _ := hat' ▸ exists_cursor (Text.byteLength lead') z (rest ++ '\n' :: [';'])
  have hoffset : Text.byteLength lead = Text.byteLength lead' := congrArg Cursor.offset (hat.symm.trans hat')
  have hcloses := (over_newline htrail (Text.byteLength lead + Text.byteLength x)).closes rfl (.inr rfl)
  have hstops := (hoffset ▸ hz).assignment_stops (w := world fileIndex file) rfl he' hcz (by rw [hat])
    (hrest.token.newline [';'])
  cases hrule.unique (hreads.statement_stops rfl hcx hcloses.breaks hstops)

theorem parseStatement_expression_iff (h : parseExpression source fileIndex file = .ok e) :
    (∃ span, parseStatement (source ++ "\n;") fileIndex file = .ok (.expression e span)) ↔
      ¬ StopsAsTarget fileIndex source.toList := by
  constructor
  · rintro ⟨span, hparse⟩ hstop
    exact parseStatement_ne_ok h hstop _ hparse
  · intro hno
    obtain ⟨lead, x, trail, hsource, hlead, hreads, htrail⟩ := parseExpression_eq_ok_iff.1 h
    have hx : Unstopped fileIndex (Text.byteLength lead) x := by
      rintro z u e' rfl hz hu hattempt
      refine hno ⟨lead, z, u ++ trail, e', by rw [hsource]; simp, hlead, hz, ?_, hattempt⟩
      rcases hu with rfl | hu
      · exact ends_nothing htrail
      · exact (hu trail).ends
    have hpart := hreads.statement_part (w := world fileIndex file) rfl hx
      (exists_cursor (Text.byteLength lead) x (trail ++ '\n' :: [';'])) rfl (over_newline htrail _)
      (exists_cursor _ [';'] [])
    have haccepts := accepts_of_yields hlead rfl (hreads.solid _) hpart.yields rfl
    rw [← newline_text hsource] at haccepts
    exact ⟨_, parseFile_eq_ok_iff.2 ⟨_, rfl, haccepts⟩⟩

end

/-- A literal after an operand in parentheses does no harm. -/
theorem parseStatement_expression_iff_paren :
    parseExpression "(a) + 1" 0 "f" =
        .ok (.ofOperands .add (.name ⟨"a", ⟨0, 1, 2⟩⟩ ⟨0, 1, 2⟩) (.literal (.int 1) ⟨0, 6, 7⟩)) ∧
      ((∃ span, parseStatement ("(a) + 1" ++ "\n;") 0 "f" =
          .ok (.expression (.ofOperands .add (.name ⟨"a", ⟨0, 1, 2⟩⟩ ⟨0, 1, 2⟩) (.literal (.int 1) ⟨0, 6, 7⟩)) span)) ↔
        ¬ StopsAsTarget 0 "(a) + 1".toList) := by
  have hname : Reads 0 false 9 1 ['a'] _ := .name (by decide)
  have hone : Reads 0 false 9 6 ['1'] _ := .literal (.decimal ⟨by decide, List.all_eq_true.1 (by decide)⟩ (by decide))
  have hparen : Reads 0 false 9 0 ['(', 'a', ')'] _ := .paren .nil rfl (hname.loosen (by decide)) .nil
  have hsum : Reads 0 false 5 0 "(a) + 1".toList
      (.ofOperands .add (.name ⟨"a", ⟨0, 1, 2⟩⟩ ⟨0, 1, 2⟩) (.literal (.int 1) ⟨0, 6, 7⟩)) :=
    .binary .add rfl (hparen.loosen (by decide)) gap_space gap_space nofun rfl (hone.loosen (by decide))
  have h : parseExpression "(a) + 1" 0 "f" = .ok _ :=
    parseExpression_eq_ok_iff.2 ⟨[], _, [], rfl, .nil, hsum.loosen (by decide), rfl⟩
  exact ⟨h, parseStatement_expression_iff h⟩

/-- A literal after an operator in parentheses. -/
theorem parseStatement_paren_literal :
    (∃ e, parseExpression "(a + 1)" 0 "f" = .ok e) ∧ ∀ s, parseStatement ("(a + 1)" ++ "\n;") 0 "f" ≠ .ok s := by
  have hname : Reads 0 false 9 1 ['a'] _ := .name (by decide)
  have hone : Reads 0 false 9 5 ['1'] _ := .literal (.decimal ⟨by decide, List.all_eq_true.1 (by decide)⟩ (by decide))
  have hsum : Reads 0 false 5 1 "a + 1".toList _ :=
    .binary .add rfl (hname.loosen (by decide)) gap_space gap_space nofun rfl (hone.loosen (by decide))
  have hparen : Reads 0 false 9 0 "(a + 1)".toList _ := .paren .nil rfl (hsum.loosen (by decide)) .nil
  have h : parseExpression "(a + 1)" 0 "f" = .ok _ :=
    parseExpression_eq_ok_iff.2 ⟨[], _, [], rfl, .nil, hparen.loosen (by decide), rfl⟩
  exact ⟨⟨_, h⟩, parseStatement_ne_ok h ⟨[], _, [], _, rfl, .nil, hparen.loosen (by decide), ends_nothing rfl, rfl⟩⟩

end PegFront.Cminor
