import PegFront.Proofs.Cminor.SentencesSound

/-!
# Blocks of statements

A text of the grammar can be moved, and its tree moves along. So statements that parse on their own also parse as the
items of a block, with all their spans moved to where they stand in it (`parseStatement_block`).
-/

namespace PegFront.Cminor

variable {f k o : Nat} {lv : Bool} {x : List Char} {e : Expr} {s : Statement} {t : TypeExpr}

/-! ## Moving texts -/

theorem Reads.shift (h : Reads f lv k o x e) (n : Nat) : Reads f lv k (o + n) x (e.shift n) := by
  induction h with
  | literal h =>
    rw [Expr.shift, Expr.mapSpans, spanAt_shift]
    exact .literal h
  | this =>
    rw [Expr.shift, Expr.mapSpans, spanAt_shift]
    exact .this
  | name h =>
    rw [Expr.shift, Expr.mapSpans, Identifier.mapSpan, spanAt_shift]
    exact .name h
  | paren hg ho _ hg' ih => exact .paren hg (by rw [ho, Nat.add_right_comm]) ih hg'
  | member _ hg hg' hy ho ih =>
    rw [Expr.shift, Expr.mapSpans, Identifier.mapSpan, spanAt_shift, spanAt_shift]
    exact .member ih hg hg' hy (by rw [ho, Nat.add_right_comm])
  | call _ hg hg' ih =>
    rw [Expr.shift, Expr.mapSpans, Expr.mapSpansAll, spanAt_shift]
    exact .call ih hg hg'
  | @invoke lv o o' x g g' y as g'' e a _ hg hg' ho _ hp has hg'' ih ihy ihas =>
    have hplaced : ∀ {o : Nat} {as : List Argument}, Argument.Placed o as →
        Argument.Placed (o + n) (as.map fun a => ⟨a.before, a.after, a.start + n, a.text, a.value.shift n⟩) := by
      intro o as hp
      induction as generalizing o with
      | nil => trivial
      | cons a as ih =>
        obtain ⟨hg, hg', hstart, hp⟩ := hp
        refine ⟨hg, hg', ?_, ?_⟩
        · show a.start + n = o + n + Text.byteLength a.comma
          rw [hstart, Nat.add_right_comm]
        · show Argument.Placed (a.start + n + Text.byteLength a.text) _
          rw [Nat.add_right_comm]
          exact ih hp
    have hwritten : Argument.written (as.map fun a => ⟨a.before, a.after, a.start + n, a.text, a.value.shift n⟩) =
        Argument.written as := List.flatMap_map _ _ _
    have hinvoke := Reads.invoke ih hg hg' (by rw [ho, Nat.add_right_comm]) ihy
      (by rw [Nat.add_right_comm]; exact hplaced hp) (List.forall_mem_map.2 ihas) hg''
    rw [hwritten, List.map_map] at hinvoke
    rw [Expr.shift, Expr.mapSpans, Expr.mapSpansAll, Expr.mapSpansAll_eq, spanAt_shift, List.map_map]
    exact hinvoke
  | index _ hg hg' ho _ hg'' ih ihy =>
    rw [Expr.shift, Expr.mapSpans, spanAt_shift]
    exact .index ih hg hg' (by rw [ho, Nat.add_right_comm]) ihy hg''
  | unary op hg ho _ ih =>
    have hunary := Reads.unary op hg (by rw [ho, Nat.add_right_comm]) ih
    rw [Expr.span_mapSpans] at hunary
    exact hunary
  | binary op hk _ hg hg' hdiv ho _ ih ih' =>
    rw [Expr.shift_ofOperands]
    exact .binary op hk ih hg hg' hdiv (by rw [ho, Nat.add_right_comm]) ih'
  | lift hk _ ih => exact .lift hk ih

theorem Expr.attempt_mapSpans (g : Span → Span) (e : Expr) : (e.mapSpans g).attempt = e.attempt := by
  induction e using Expr.induct with
  | literal | name | this => rfl
  | unary op e _ ih => rw [Expr.mapSpans, Expr.attempt, Expr.attempt, ih]
  | binary op e e' _ ih ih' => rw [Expr.mapSpans, Expr.attempt, Expr.attempt, ih, ih']
  | member e _ _ ih | invoke e _ _ ih _ | index e _ _ ih _ => exact ih

theorem Unstopped.shift (h : Unstopped f o x) (n : Nat) : Unstopped f (o + n) x := by
  rintro z u e rfl hz hu hattempt
  obtain ⟨e', he', rfl⟩ := hz.moved o n rfl
  exact h z u e' rfl he' hu (by rw [← Expr.attempt_mapSpans, hattempt])

theorem Optionally.shift {α : Type} {R : Nat → List Char → α → Prop} {v : Option α} (h : Optionally R o x v) (n : Nat)
    {g : α → α} (hR : ∀ {o x a}, R o x a → R (o + n) x (g a)) : Optionally R (o + n) x (v.map g) := by
  cases h with
  | none => exact .none
  | some hg ho h => exact .some hg (by rw [ho, Nat.add_right_comm]) (hR h)

theorem Enclosed.shift (h : Enclosed f o x e) (n : Nat) : Enclosed f (o + n) x (e.shift n) := by
  cases h with
  | mk hg ho h hg' => exact .mk hg (by rw [ho, Nat.add_right_comm]) (h.shift n) hg'

theorem Assigned.shift (h : Assigned f o x e) (n : Nat) : Assigned f (o + n) x (e.shift n) := by
  cases h with
  | mk hg ho h => exact .mk hg (by rw [ho, Nat.add_right_comm]) (h.shift n)

theorem TypeText.shift (h : TypeText f o x t) (n : Nat) : TypeText f (o + n) x (t.mapSpans (Span.shift n)) := by
  induction h with
  | basic b =>
    rw [TypeExpr.mapSpans, spanAt_shift]
    exact .basic b
  | named h =>
    rw [TypeExpr.mapSpans, Identifier.mapSpan, spanAt_shift]
    exact .named h
  | array _ hg hg' ih =>
    rw [TypeExpr.mapSpans, spanAt_shift]
    exact .array ih hg hg'

theorem TypeExpr.isArray_mapSpans (g : Span → Span) (t : TypeExpr) : (t.mapSpans g).isArray = t.isArray := by
  cases t <;> rfl

theorem Statement.isConstruction_mapSpans (g : Span → Span) (s : Statement) :
    (s.mapSpans g).isConstruction = s.isConstruction := by cases s <;> rfl

theorem Statement.endsOpen_mapSpans (g : Span → Span) (s : Statement) : (s.mapSpans g).endsOpen = s.endsOpen := by
  fun_induction Statement.endsOpen s with
  | case1 => rfl
  | case2 _ _ _ _ ih | case3 _ _ _ ih | case4 _ _ _ _ _ ih => exact ih
  | case5 s hif helse hwhile hfor =>
    cases s with
    | ifElse _ _ e _ =>
      cases e with
      | none => exact (hif _ _ _ rfl).elim
      | some => exact (helse _ _ _ _ rfl).elim
    | whileLoop => exact (hwhile _ _ _ rfl).elim
    | forLoop => exact (hfor _ _ _ _ _ rfl).elim
    | _ => rfl

theorem BodyText.shift (h : BodyText f o x s) (n : Nat) : BodyText f (o + n) x (s.shift n) := by
  cases h with
  | construction hx hg hsep hy ho ho' hi =>
    rw [Statement.shift, Statement.mapSpans, Identifier.mapSpan, spanAt_shift, spanAt_shift]
    exact .construction (hx.shift n) hg (by rwa [TypeExpr.isArray_mapSpans]) hy (by rw [ho, Nat.add_right_comm])
      (by rw [ho', Nat.add_right_comm]) (hi.shift n fun h => h.shift n)
  | assignment hx hg ho hy =>
    rw [Statement.shift, Statement.mapSpans, spanAt_shift]
    exact .assignment (hx.shift n) hg (by rw [ho, Nat.add_right_comm]) (hy.shift n)
  | expression hx hu =>
    rw [Statement.shift, Statement.mapSpans, spanAt_shift]
    exact .expression (hx.shift n) (hu.shift n)

theorem StepText.shift (h : StepText f o x s) (n : Nat) : StepText f (o + n) x (s.shift n) :=
  ⟨h.1.shift n, (Statement.isConstruction_mapSpans _ s).trans h.2⟩

namespace Element

variable {α : Type}

def shift (n : Nat) (g : α → α) (a : Element α) : Element α := ⟨a.lead, a.start + n, a.text, g a.value⟩

theorem written_shift (n : Nat) (g : α → α) (as : List (Element α)) : written (as.map (shift n g)) = written as :=
  List.flatMap_map _ _ _

theorem Placed.shift {Sets : List Char → Prop} {as : List (Element α)} (hp : Placed Sets o as) (n : Nat) (g : α → α) :
    Placed Sets (o + n) (as.map (Element.shift n g)) := by
  induction as generalizing o with
  | nil => trivial
  | cons a as ih =>
    obtain ⟨hlead, hstart, hp⟩ := hp
    refine ⟨hlead, ?_, ?_⟩
    · show a.start + n = o + n + Text.byteLength a.lead
      rw [hstart, Nat.add_right_comm]
    · show Placed Sets (a.start + n + Text.byteLength a.text) _
      rw [Nat.add_right_comm]
      exact ih hp

end Element

theorem Says.shift (h : Says f o x s) (n : Nat) : Says f (o + n) x (s.shift n) := by
  induction h with
  | compound ho hp _ hg ih =>
    have hcompound := Says.compound (f := f) (by rw [ho, Nat.add_right_comm]) (hp.shift n (Statement.shift n))
      (List.forall_mem_map.2 ih) hg
    rw [Element.written_shift, List.map_map] at hcompound
    rw [Statement.shift, Statement.mapSpans, Statement.mapSpansAll_eq, List.map_map, spanAt_shift]
    exact hcompound
  | ifThen hg ho₁ hx hg' ho₂ _ ih =>
    rw [Statement.shift, Statement.mapSpans, Statement.mapSpans?, spanAt_shift]
    exact .ifThen hg (by rw [ho₁, Nat.add_right_comm]) (hx.shift n) hg' (by rw [ho₂, Nat.add_right_comm]) ih
  | ifElse hg ho₁ hx hg' ho₂ _ hclosed hg₁ hg₂ hend ho₃ _ ih ih' =>
    rw [Statement.shift, Statement.mapSpans, Statement.mapSpans?, spanAt_shift]
    exact .ifElse hg (by rw [ho₁, Nat.add_right_comm]) (hx.shift n) hg' (by rw [ho₂, Nat.add_right_comm]) ih
      ((Statement.endsOpen_mapSpans _ _).trans hclosed) hg₁ hg₂ hend (by rw [ho₃, Nat.add_right_comm]) ih'
  | whileLoop hg ho₁ hx hg' ho₂ _ ih =>
    rw [Statement.shift, Statement.mapSpans, spanAt_shift]
    exact .whileLoop hg (by rw [ho₁, Nat.add_right_comm]) (hx.shift n) hg' (by rw [ho₂, Nat.add_right_comm]) ih
  | doWhile hg hend ho₁ _ hg₁ hg₂ ho₂ hx hg₃ ih =>
    rw [Statement.shift, Statement.mapSpans, spanAt_shift]
    exact .doWhile hg hend (by rw [ho₁, Nat.add_right_comm]) ih hg₁ hg₂ (by rw [ho₂, Nat.add_right_comm]) (hx.shift n) hg₃
  | forLoop hg ho₁ hi hg₁ ho₂ hc hg₂ ho₃ hp hg₃ hg₄ ho₄ _ ih =>
    rw [Statement.shift, Statement.mapSpans, Statement.mapSpans?_eq, Statement.mapSpans?_eq, spanAt_shift]
    exact .forLoop hg (by rw [ho₁, Nat.add_right_comm]) (hi.shift n fun h => h.shift n) hg₁
      (by rw [ho₂, Nat.add_right_comm]) (hc.shift n fun h => h.shift n) hg₂ (by rw [ho₃, Nat.add_right_comm])
      (hp.shift n fun h => h.shift n) hg₃ hg₄ (by rw [ho₄, Nat.add_right_comm]) ih
  | ret ho hx hend hg =>
    rw [Statement.shift, Statement.mapSpans, spanAt_shift]
    exact .ret (by rw [ho, Nat.add_right_comm]) (hx.shift n fun h => h.shift n) hend hg
  | breakLoop hg =>
    rw [Statement.shift, Statement.mapSpans, spanAt_shift]
    exact .breakLoop hg
  | continueLoop hg =>
    rw [Statement.shift, Statement.mapSpans, spanAt_shift]
    exact .continueLoop hg
  | body h hg =>
    rw [Statement.shift, Statement.mapSpans_withSpan, spanAt_shift]
    exact .body (h.shift n) hg
  | empty =>
    rw [Statement.shift, Statement.mapSpans, spanAt_shift]
    exact .empty

/-! ## Blocks -/

/-- Sources one after the other, with a line break after each. -/
def inLines (sources : List String) : String := String.join (sources.map (· ++ "\n"))

/-- Statements moved to where their sources stand in lines that begin at an offset. -/
def arranged : Nat → List (String × Statement) → List Statement
  | _, [] => []
  | o, (source, s) :: items => s.shift o :: arranged (o + source.utf8ByteSize + 1) items

theorem toList_inLines_cons (source : String) (sources : List String) :
    (inLines (source :: sources)).toList = source.toList ++ '\n' :: (inLines sources).toList := by
  simp [inLines]

/-- The lines of statements are a row of statements. What is left open before a line is a gap together with the gap at
the start of the line. -/
theorem exists_elements {file : String} {items : List (String × Statement)}
    (h : ∀ p ∈ items, parseStatement p.1 f file = .ok p.2) (t : List Char) (ht : ∀ g, Gap g → Gap (t ++ g)) (o : Nat) :
    ∃ as g, t ++ (inLines (items.map (·.1))).toList = Element.written as ++ g ∧ Element.Placed Gap o as ∧
      (∀ a ∈ as, Says f a.start a.text a.value) ∧ Gap g ∧
      as.map (·.value) = arranged (o + Text.byteLength t) items := by
  induction items generalizing t o with
  | nil => exact ⟨[], t ++ [], rfl, trivial, fun _ h => absurd h List.not_mem_nil, ht [] .nil, rfl⟩
  | cons item items ih =>
    obtain ⟨source, s⟩ := item
    obtain ⟨hitem, hitems⟩ := List.forall_mem_cons.1 h
    obtain ⟨lead, x, trail, hsource, hlead, hx, htrail⟩ := parseStatement_eq_ok_iff.1 hitem
    obtain ⟨as, g, htext, hplaced, hsays, hg, hvalues⟩ := ih hitems (trail ++ ['\n'])
      (fun g hg => by simpa using hg.behind_newline htrail) (o + Text.byteLength (t ++ lead) + Text.byteLength x)
    have hshift := hx.shift (o + Text.byteLength t)
    have hstart : Text.byteLength lead + (o + Text.byteLength t) = o + Text.byteLength (t ++ lead) := by
      rw [Text.byteLength_append]
      omega
    have hsize : source.utf8ByteSize = Text.byteLength lead + Text.byteLength x + Text.byteLength trail := by
      rw [← Text.byteLength_toList, hsource, Text.byteLength_append, Text.byteLength_append]
    rw [hstart] at hshift
    refine ⟨⟨t ++ lead, _, x, s.shift (o + Text.byteLength t)⟩ :: as, g, ?_, ⟨ht lead hlead, rfl, hplaced⟩,
      List.forall_mem_cons.2 ⟨hshift, hsays⟩, hg, ?_⟩
    · have hwritten : Element.written (⟨t ++ lead, o + Text.byteLength (t ++ lead), x, s.shift (o + Text.byteLength t)⟩ ::
          as) = t ++ lead ++ x ++ Element.written as := rfl
      rw [hwritten, List.map_cons, toList_inLines_cons, hsource, List.append_assoc _ (Element.written as), ← htext]
      simp
    · rw [List.map_cons, hvalues, arranged]
      congr 2
      have hnewline : Text.byteLength ['\n'] = 1 := rfl
      simp only [hsize, Text.byteLength_append, hnewline]
      omega

/-- Statements on lines of their own between braces are a block of them. -/
theorem parseStatement_block (items : List (String × Statement)) (fileIndex : Nat) (file : String)
    (h : ∀ p ∈ items, parseStatement p.1 fileIndex file = .ok p.2) :
    parseStatement ("\x7b" ++ inLines (items.map (·.1)) ++ "\x7d") fileIndex file =
      .ok (.compound (arranged 1 items)
        ⟨fileIndex, 0, ("\x7b" ++ inLines (items.map (·.1)) ++ "\x7d").utf8ByteSize⟩) := by
  obtain ⟨as, g, htext, hplaced, hsays, hg, hvalues⟩ := exists_elements h [] (fun _ h => h) 1
  have hsource : ("\x7b" ++ inLines (items.map (·.1)) ++ "\x7d").toList = ['\x7b'] ++ Element.written as ++ g ++ ['\x7d'] := by
    rw [List.nil_append] at htext
    rw [String.toList_append, String.toList_append, htext, List.append_assoc _ _ g]
    rfl
  have hblock := Says.compound (f := fileIndex) (o := 0) rfl hplaced hsays hg
  rw [hvalues, spanAt, ← hsource, Text.byteLength_toList, Nat.zero_add] at hblock
  exact parseStatement_eq_ok_iff.2 ⟨[], _, [], by simp, .nil, hblock, rfl⟩

/-- An `if` without `else` before a statement whose line ends in a comment. -/
theorem parseStatement_block_open_if :
    let a : Expr := .name ⟨"a", ⟨0, 3, 4⟩⟩ ⟨0, 3, 4⟩
    let first : Statement := .ifElse a (.empty ⟨0, 5, 6⟩) none ⟨0, 0, 6⟩
    let second : Statement := .ret none ⟨0, 1, 8⟩
    parseStatement "if(a);" 0 "f" = .ok first ∧ parseStatement " return;//" 0 "f" = .ok second ∧
      parseStatement "\x7bif(a);\n return;//\n\x7d" 0 "f" =
        .ok (.compound [first.shift 1, second.shift 8] ⟨0, 0, 20⟩) := by
  intro a first second
  have ha : Reads 0 false 9 3 ['a'] a := .name (by decide)
  have hfirst : parseStatement "if(a);" 0 "f" = .ok first :=
    parseStatement_eq_ok_iff.2 ⟨[], _, [], rfl, .nil,
      .ifThen .nil rfl (.mk .nil rfl (ha.loosen (by decide)) .nil) .nil rfl .empty, rfl⟩
  have hsecond : parseStatement " return;//" 0 "f" = .ok second :=
    parseStatement_eq_ok_iff.2 ⟨[' '], _, ['/', '/'], rfl, gap_space,
      .ret (x := []) (g := []) rfl .none (by rintro _ ⟨⟩; decide) .nil, rfl⟩
  exact ⟨hfirst, hsecond, parseStatement_block [("if(a);", first), (" return;//", second)] 0 "f"
    (List.forall_mem_cons.2 ⟨hfirst, List.forall_mem_cons.2 ⟨hsecond, fun _ h => absurd h List.not_mem_nil⟩⟩)⟩

end PegFront.Cminor
