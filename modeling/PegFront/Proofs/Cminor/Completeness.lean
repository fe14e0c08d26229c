import PegFront.Proofs.Cminor.Levels

/-!
# Every text of the grammar is read

By induction over `Reads`: wherever the text of an expression stands and ends, the rule of its level yields its
tree.
-/

namespace PegFront.Cminor

variable {w : World Value} {c d : Cursor} {lv : Bool} {k o : Nat} {x : List Char} {e : Expr}

/-- What the rules make of an expression that stands between two places. -/
structure Read (w : World Value) (lv : Bool) (k : Nat) (c : Cursor) (e : Expr) (d : Cursor) : Prop where
  level : Ends k d.rest → Yields w blanks (levelName k) [.mode ⟨lv⟩] c (.expr e) d
  binary : k < 7 → Ends (k + 1) d.rest → Extends w (binaryRule k) (binaryBody k) lv c e d
  suffix : k = 8 → Ends 9 d.rest → Extends w postfixLevel suffixes lv c e d

theorem Read.of_binary (hw : w.rules = table) (hk : k < 7)
    (h : Ends (k + 1) d.rest → Extends w (binaryRule k) (binaryBody k) lv c e d) : Read w lv k c e d where
  level := fun hd => binary_done hw hk (h (hd.mono (Nat.le_succ k))) hd
  binary := fun _ => h
  suffix := fun hk' => by omega

theorem Read.of_suffix (hw : w.rules = table) (h : Ends 9 d.rest → Extends w postfixLevel suffixes lv c e d) :
    Read w lv 8 c e d where
  level := fun hd => postfix_done hw (h (hd.mono (Nat.le_succ 8))) hd
  binary := fun hk => by omega
  suffix := fun _ => h

theorem Read.of_primary (h : TokenEnd d.rest → Yields w blanks "Primary" [.mode ⟨lv⟩] c (.expr e) d) :
    Read w lv 9 c e d where
  level := fun hd => h hd.token
  binary := fun hk => by omega
  suffix := fun hk => by omega

theorem Read.of_prefixed (h : Ends 7 d.rest → Yields w blanks "Prefix" [.mode ⟨lv⟩] c (.expr e) d) :
    Read w lv 7 c e d where
  level := h
  binary := fun hk => by omega
  suffix := fun hk => by omega

theorem spanAt_eq (hc : c.Spans x d) : spanAt w.fileIndex c.offset x = w.span c d := by
  rw [spanAt, ← hc.offset]
  rfl

theorem Reads.nonempty {f : Nat} (h : Reads f lv k o x e) : x ≠ [] := by
  obtain ⟨ch, y, rfl, -⟩ := h.head
  exact nofun

theorem not_digit_of_name {g : List Char} (hg : Gap g) (hx : isName x = true) (t : List Char) :
    ∀ ch ∈ (g ++ (x ++ t)).head?, ch.isDigit = false := by
  intro ch hch
  rw [Bool.eq_false_iff]
  intro hdigit
  have hword := isWordChar_of_digit hdigit
  cases g with
  | nil =>
    obtain ⟨ch', y, rfl, hstart⟩ := head_of_isName hx
    cases hch
    rw [isWordStart_of_digit hdigit] at hstart
    cases hstart
  | cons ch' g =>
    cases hch
    rcases hg.head ch rfl with hb | rfl
    · rw [isWordChar_of_blank hb] at hword
      cases hword
    · cases hdigit

/-- The text of an expression takes up the rule for its level wherever it stands. -/
theorem Reads.read (hw : w.rules = table) (h : Reads w.fileIndex lv k o x e) (hc : c.Spans x d) (ho : c.offset = o) :
    Read w lv k c e d := by
  induction h generalizing c d with
  | literal h =>
    subst ho
    rw [spanAt_eq hc]
    exact .of_primary fun hd => primary_literal hw h hc hd
  | this =>
    subst ho
    rw [spanAt_eq hc]
    exact .of_primary fun hd => primary_this hw hc hd.word
  | name h =>
    subst ho
    rw [spanAt_eq hc]
    exact .of_primary fun hd => primary_name hw h hc hd.word
  | paren hg ho' h hg' ih =>
    subst ho ho'
    obtain ⟨c₄, hc, hclose⟩ := Cursor.spans_append.1 hc
    obtain ⟨c₃, hc, hs'⟩ := Cursor.spans_append.1 hc
    obtain ⟨c₂, hc, hx⟩ := Cursor.spans_append.1 hc
    obtain ⟨c₁, hopen, hs⟩ := Cursor.spans_append.1 hc
    have hends : Ends 0 c₃.rest := by
      rw [hs'.rest, hclose.rest]
      exact ends_closing hg' (.inl rfl)
    have hinner := expression_yields hw ((ih hx hc.offset).level hends)
    exact .of_primary fun _ => primary_paren hw hopen hg hs (by rw [hx.rest]; exact h.solid _) hinner
      (Spans.moves hx h.nonempty) hg' hs' hclose
  | member h hg hg' hy ho' ih =>
    subst ho ho'
    have hwhole := hc
    obtain ⟨c₄, hc, hname⟩ := Cursor.spans_append.1 hc
    obtain ⟨c₃, hc', hs'⟩ := Cursor.spans_append.1 hc
    obtain ⟨c₂, hc', hdot⟩ := Cursor.spans_append.1 hc'
    obtain ⟨c₁, hx, hs⟩ := Cursor.spans_append.1 hc'
    rw [spanAt_eq hwhole, ← hc.offset, spanAt_eq hname]
    have hends : Ends 9 c₁.rest := by
      rw [hs.rest, hdot.rest, hs'.rest, hname.rest]
      exact ends_dot hg (not_digit_of_name hg' hy _)
    refine .of_suffix hw fun hd => ((ih hx rfl).suffix rfl hends).more hw hg hs ?_ ?_ fun ctx hctx =>
      member_step hw hdot hg' hs' hy hname hd.token.word hctx
    · rw [hdot.rest]; exact solid_cons (by decide) (by decide) _
    · rw [hdot.rest]; exact nofun
  | call h hg hg' ih =>
    subst ho
    have hwhole := hc
    obtain ⟨c₄, hc, hclose⟩ := Cursor.spans_append.1 hc
    obtain ⟨c₃, hc, hs'⟩ := Cursor.spans_append.1 hc
    obtain ⟨c₂, hc, hopen⟩ := Cursor.spans_append.1 hc
    obtain ⟨c₁, hx, hs⟩ := Cursor.spans_append.1 hc
    rw [spanAt_eq hwhole]
    have hends : Ends 9 c₁.rest := by
      rw [hs.rest, hopen.rest]
      exact ends_bracket hg (.inl rfl)
    have hmiss : Misses w blanks "Expression" [.mode {}] c₄ := by
      refine expression_miss_head hw ?_
      rw [hclose.rest]
      rintro _ ⟨⟩
      decide
    refine .of_suffix hw fun hd => ((ih hx rfl).suffix rfl hends).more hw hg hs ?_ ?_ fun ctx hctx =>
      call_step hw hopen hg' hs' hclose hmiss hctx
    · rw [hopen.rest]; exact solid_cons (by decide) (by decide) _
    · rw [hopen.rest]; exact nofun
  | invoke h hg hg' ho' hy hp has hg'' ih ihy ihas =>
    rename_i as _ _ _
    subst ho ho'
    have hwhole := hc
    obtain ⟨c₇, hc, hclose⟩ := Cursor.spans_append.1 hc
    obtain ⟨c₆, hc, hs''⟩ := Cursor.spans_append.1 hc
    obtain ⟨c₅, hc, hmore⟩ := Cursor.spans_append.1 hc
    obtain ⟨c₄, hc, hfirst⟩ := Cursor.spans_append.1 hc
    obtain ⟨c₃, hc', hs'⟩ := Cursor.spans_append.1 hc
    obtain ⟨c₂, hc', hopen⟩ := Cursor.spans_append.1 hc'
    obtain ⟨c₁, hx, hs⟩ := Cursor.spans_append.1 hc'
    rw [spanAt_eq hwhole]
    have hends : Ends 9 c₁.rest := by
      rw [hs.rest, hopen.rest]
      exact ends_bracket hg (.inl rfl)
    have hp : Argument.Placed c₅.offset as := by rw [hfirst.offset, hc.offset]; exact hp
    have hendsArg : Ends 0 c₅.rest := by
      rw [hmore.rest, hs''.rest, hclose.rest]
      exact ends_arguments hp hg''
    have hyields := expression_yields hw ((ihy hfirst hc.offset).level hendsArg)
    have hitems : ∀ b ∈ as, ∀ c d : Cursor, c.Spans b.text d → c.offset = b.start → Ends 0 d.rest →
        Yields w blanks "Expression" [.mode {}] c (.expr b.value) d :=
      fun b hb c d hc ho hd => expression_yields hw ((ihas b hb hc ho).level hd)
    refine .of_suffix hw fun hd => ((ih hx rfl).suffix rfl hends).more hw hg hs ?_ ?_ fun ctx hctx =>
      invoke_step hw hopen hg' hs' (by rw [hfirst.rest]; exact hy.solid _) hyields (Spans.moves hfirst hy.nonempty)
        hmore hp hitems (fun b hb t => (has b hb).solid t) hg'' hs'' hclose hctx
    · rw [hopen.rest]; exact solid_cons (by decide) (by decide) _
    · rw [hopen.rest]; exact nofun
  | index h hg hg' ho' hy hg'' ih ihy =>
    subst ho ho'
    have hwhole := hc
    obtain ⟨c₆, hc, hclose⟩ := Cursor.spans_append.1 hc
    obtain ⟨c₅, hc, hs''⟩ := Cursor.spans_append.1 hc
    obtain ⟨c₄, hc, hindex⟩ := Cursor.spans_append.1 hc
    obtain ⟨c₃, hc', hs'⟩ := Cursor.spans_append.1 hc
    obtain ⟨c₂, hc', hopen⟩ := Cursor.spans_append.1 hc'
    obtain ⟨c₁, hx, hs⟩ := Cursor.spans_append.1 hc'
    rw [spanAt_eq hwhole]
    have hends : Ends 9 c₁.rest := by
      rw [hs.rest, hopen.rest]
      exact ends_bracket hg (.inr rfl)
    have hendsIndex : Ends 0 c₅.rest := by
      rw [hs''.rest, hclose.rest]
      exact ends_closing hg'' (.inr (.inl rfl))
    have hyields := expression_yields hw ((ihy hindex hc.offset).level hendsIndex)
    refine .of_suffix hw fun hd => ((ih hx rfl).suffix rfl hends).more hw hg hs ?_ ?_ fun ctx hctx =>
      index_step hw hopen hg' hs' (by rw [hindex.rest]; exact hy.solid _) hyields (Spans.moves hindex hy.nonempty)
        hg'' hs'' hclose hctx
    · rw [hopen.rest]; exact solid_cons (by decide) (by decide) _
    · rw [hopen.rest]; exact nofun
  | unary op hg ho' h ih =>
    subst ho ho'
    obtain ⟨c₂, hc, hx⟩ := Cursor.spans_append.1 hc
    obtain ⟨c₁, hop, hs⟩ := Cursor.spans_append.1 hc
    exact .of_prefixed fun hd => prefix_sign hw op hop hg hs (by rw [hx.rest]; exact h.solid _)
      ((ih hx hc.offset).level hd) (Spans.moves hx h.nonempty)
  | binary op hk h hg hg' hdiv ho' h' ih ih' =>
    rename_i g' y _ _
    subst ho ho' hk
    obtain ⟨c₄, hc, hy⟩ := Cursor.spans_append.1 hc
    obtain ⟨c₃, hc', hs'⟩ := Cursor.spans_append.1 hc
    obtain ⟨c₂, hc', hop⟩ := Cursor.spans_append.1 hc'
    obtain ⟨c₁, hx, hs⟩ := Cursor.spans_append.1 hc'
    have hrest : c₂.rest = op.symbol.toList ++ (g' ++ y ++ d.rest) := by
      rw [((hop.trans hs').trans hy).rest]
      simp
    have hsolid : Solid c₂.rest := by rw [hrest]; exact h'.solid_operator hg' hdiv _
    have hat : operatorAt c₂.rest = some op := by rw [hrest]; exact operatorAt_symbol op (h'.alone hg' _)
    have hends : Ends (op.level + 1) c₁.rest := by
      rw [hs.rest, hrest]
      exact ends_operator hg (h'.alone hg' _) (h'.solid_operator hg' hdiv _)
    exact .of_binary hw op.level_lt fun hd => binary_more hw op.level_lt op rfl ((ih hx rfl).binary op.level_lt hends) hg
      hs hsolid hat hop hg' hs' (by rw [hy.rest]; exact h'.solid _) ((ih' hy hc.offset).level hd)
      (Spans.moves hy h'.nonempty)
  | lift hk h ih =>
    rename_i k o x e
    have hread := ih hc ho
    match k, hk with
    | 0, _ | 1, _ | 2, _ | 3, _ | 4, _ | 5, _ | 6, _ =>
      exact .of_binary hw (by decide) fun hd => binary_first hw (by decide) (hread.level hd)
    | 7, _ =>
      obtain ⟨ch, y, rfl, -, hsign⟩ := h.head
      refine .of_prefixed fun hd => prefix_none hw ?_ (hread.level (hd.mono (by decide)))
      rw [hc.rest]
      rintro _ ⟨⟩
      exact hsign (by decide)
    | 8, _ => exact .of_suffix hw fun hd => postfix_first hw (hread.level hd)

end PegFront.Cminor
