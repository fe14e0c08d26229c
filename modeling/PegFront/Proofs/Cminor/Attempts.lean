import PegFront.Proofs.Cminor.Leading

/-!
# Attempts to read a target

What the rules for expressions do in the mode of assignment targets, by `Expr.attempt`: with a literal for its first
operand an expression is no target, and every later literal makes the parse fail.
-/

namespace PegFront.Cminor

section
variable {w : World Value} {c d : Cursor} {k o : Nat} {lv : Bool} {x : List Char} {e : Expr} {l : Literal}

/-- As a target, no literal stands alone. -/
theorem primary_miss_literal (hw : w.rules = table) (hx : LiteralText x l) (hc : c.Spans x d)
    (hd : TokenEnd d.rest) : Misses w blanks "Primary" [.mode ⟨true⟩] c := by
  have hparen : c.rest.head? ≠ some '(' := by
    obtain ⟨ch, y, rfl, hch⟩ := head_of_literalText hx
    rw [hc.rest]
    rintro ⟨⟩
    revert hch
    decide
  have hfirst : FirstWord (· ∈ ["true", "false", "null"]) c.rest := by
    rw [hc.rest]
    exact firstWord_literal hx hd.word
  have hliteral : Derives w blanks (.pattern primaryLevel (.call (callAt "Literal" "Literal" 0))
      ⟨[("ctx", .mode ⟨true⟩)], none, c.offset⟩) c
      (.hit ⟨[("ctx", .mode ⟨true⟩), ("Literal", .literal l)], none, c.offset⟩ d) :=
    (literal_hit hw hx hc hd).call hw table_literal rfl rfl rfl rfl
  have hname : Misses w blanks "Identifier" [] c := name_miss hw fun y e hy he hend =>
    (by decide : ["true", "false", "null"] ⊆ keywords) (hfirst y e.rest hy he.rest hend)
  have hthis : NotAt ["this"] c := hfirst.notAt (by decide)
  exact misses_of hw table_primary rfl (.alt_second (.alt_second (.alt_second (paren_miss hparen)
    (.act_false Expressions.literal rfl hliteral rfl)) (.act_miss (keyword_miss (hthis "this" (by simp)))))
    (.act_miss (hname.call rfl rfl rfl)))

/-- At an expression whose first operand is a literal no target stands. -/
theorem Reads.missed (hw : w.rules = table) (h : Reads w.fileIndex lv k o x e) (he : e.attempt = .missed)
    (hc : c.Spans x d) (ho : c.offset = o) (hd : TokenEnd d.rest) :
    Misses w blanks "Primary" [.mode ⟨true⟩] c ∧
      ∀ ch ∈ c.rest.head?, ch ≠ '-' ∧ ch ≠ '+' ∧ ch ≠ '!' ∧ ch ≠ '~' := by
  induction h generalizing c d with
  | literal h =>
    refine ⟨primary_miss_literal hw h hc hd, ?_⟩
    obtain ⟨ch, y, rfl, hch⟩ := head_of_literalText h
    rw [hc.rest]
    rintro _ ⟨⟩
    refine ⟨?_, ?_, ?_, ?_⟩ <;> rintro rfl <;> revert hch <;> decide
  | this | name => cases he
  | paren hg ho' h hg' ih =>
    subst ho ho'
    obtain ⟨c₄, hc, hclose⟩ := Cursor.spans_append.1 hc
    obtain ⟨c₃, hc, hs'⟩ := Cursor.spans_append.1 hc
    obtain ⟨c₂, hc, hx⟩ := Cursor.spans_append.1 hc
    obtain ⟨c₁, hopen, hs⟩ := Cursor.spans_append.1 hc
    have htoken : TokenEnd c₃.rest := by
      rw [hs'.rest, hclose.rest]
      exact (ends_closing (k := 0) hg' (.inl rfl)).token
    obtain ⟨hmiss, hsign⟩ := ih he hx hc.offset htoken
    have hinner : Misses w blanks "Expression" [.mode ⟨true⟩] c₂ := expression_miss hw (level_miss hw hmiss hsign 0)
    have hhead : c.rest.head? = some '(' := by rw [hopen.rest]; rfl
    have hno : NoWord c.rest := by rw [NoWord, hhead]; rintro _ ⟨⟩; decide
    have hliteral : Misses w blanks "Literal" [] c :=
      literal_miss hw (notAt_of_noWord (by decide) hno) (by rw [hhead]; rintro _ ⟨⟩; decide)
    refine ⟨misses_of hw table_primary rfl (.alt_second (.alt_second (.alt_second (.seq_first (.seq_second
      (.char_of_spans hopen) (skip_gap hw hg hs (by rw [hx.rest]; exact h.solid _) _)
      (hinner.call rfl (argumentsOf_forward rfl rfl) rfl))) (.act_miss (hliteral.call rfl rfl rfl)))
      (.act_miss (keyword_miss_noWord (by decide) hno)))
      (.act_miss ((name_miss_noWord hw hno).call rfl rfl rfl))), ?_⟩
    rw [hhead]
    rintro _ ⟨⟩
    decide
  | member h hg hg' hy _ ih =>
    simp only [List.append_assoc] at hc
    obtain ⟨c₁, hx, hc⟩ := Cursor.spans_append.1 hc
    refine ih he hx ho ?_
    rw [hc.rest]
    simp only [List.append_assoc]
    exact (ends_dot hg (not_digit_of_name hg' hy _)).token
  | call h hg _ ih | invoke h hg _ _ _ _ _ _ ih =>
    simp only [List.append_assoc] at hc
    obtain ⟨c₁, hx, hc⟩ := Cursor.spans_append.1 hc
    refine ih he hx ho ?_
    rw [hc.rest]
    simp only [List.append_assoc]
    exact (ends_bracket hg (.inl rfl)).token
  | index h hg _ _ _ _ ih =>
    simp only [List.append_assoc] at hc
    obtain ⟨c₁, hx, hc⟩ := Cursor.spans_append.1 hc
    refine ih he hx ho ?_
    rw [hc.rest]
    simp only [List.append_assoc]
    exact (ends_bracket hg (.inr rfl)).token
  | unary =>
    rw [Expr.attempt] at he
    split at he <;> cases he
  | binary op _ h hg hg' hdiv _ h' ih =>
    rw [Expr.ofOperands, Expr.attempt] at he
    split at he
    · split at he <;> cases he
    · simp only [List.append_assoc] at hc
      obtain ⟨c₁, hx, hc⟩ := Cursor.spans_append.1 hc
      refine ih he hx ho ?_
      have hends := ends_operator hg (h'.alone hg' d.rest) (h'.solid_operator hg' hdiv d.rest)
      rw [hc.rest]
      simpa only [List.append_assoc] using hends.token
  | lift _ _ ih => exact ih he hc ho hd

theorem Reads.level_missed (hw : w.rules = table) (h : Reads w.fileIndex lv k o x e) (he : e.attempt = .missed)
    (hc : c.Spans x d) (ho : c.offset = o) (hd : TokenEnd d.rest) : Misses w blanks (levelName k) [.mode ⟨true⟩] c :=
  level_miss hw (h.missed hw he hc ho hd).1 (h.missed hw he hc ho hd).2 k

/-- An operand that must be there, and is no target. -/
theorem Reads.operand_stops (hw : w.rules = table) {label : String} {rule : Rule Value} {ctx : Context Value}
    (h : Reads w.fileIndex lv k o x e) (he : e.attempt ≠ .taken)
    (hstop : e.attempt = .stopped → Stops w blanks (levelName k) [.mode ⟨true⟩] c) (hc : c.Spans x d) (ho : c.offset = o)
    (hd : TokenEnd d.rest) (ha : rule.argumentsOf (callAt label (levelName k) 1) ctx = [.mode ⟨true⟩]) :
    Derives w blanks (.pattern rule (.expect (.call (callAt label (levelName k) 1))) ctx) c .stop := by
  cases hattempt : e.attempt with
  | taken => exact absurd hattempt he
  | missed => exact .expect_miss ((h.level_missed hw hattempt hc ho hd).call rfl ha rfl)
  | stopped => exact .expect_stop ((hstop hattempt).call rfl ha rfl)

theorem Reads.stops (hw : w.rules = table) (h : Reads w.fileIndex lv k o x e) (he : e.attempt = .stopped)
    (hc : c.Spans x d) (ho : c.offset = o) (hd : TokenEnd d.rest) : Stops w blanks (levelName k) [.mode ⟨true⟩] c := by
  induction h generalizing c d with
  | literal | this | name => cases he
  | paren hg ho' h hg' ih =>
    subst ho ho'
    obtain ⟨c₄, hc, hclose⟩ := Cursor.spans_append.1 hc
    obtain ⟨c₃, hc, hs'⟩ := Cursor.spans_append.1 hc
    obtain ⟨c₂, hc, hx⟩ := Cursor.spans_append.1 hc
    obtain ⟨c₁, hopen, hs⟩ := Cursor.spans_append.1 hc
    have htoken : TokenEnd c₃.rest := by
      rw [hs'.rest, hclose.rest]
      exact (ends_closing (k := 0) hg' (.inl rfl)).token
    have hinner : Stops w blanks "Expression" [.mode ⟨true⟩] c₂ :=
      stops_of hw table_expression rfl ((ih he hx hc.offset htoken).call rfl (argumentsOf_forward rfl rfl) rfl)
    exact stops_of hw table_primary rfl (.alt_stop (.alt_stop (.alt_stop (.seq_stop_first (.seq_stop_second
      (.char_of_spans hopen) (skip_gap hw hg hs (by rw [hx.rest]; exact h.solid _) _)
      (hinner.call rfl (argumentsOf_forward rfl rfl) rfl))))))
  | member h hg hg' hy _ ih =>
    simp only [List.append_assoc] at hc
    obtain ⟨c₁, hx, hc⟩ := Cursor.spans_append.1 hc
    refine ih he hx ho ?_
    rw [hc.rest]
    simp only [List.append_assoc]
    exact (ends_dot hg (not_digit_of_name hg' hy _)).token
  | call h hg _ ih | invoke h hg _ _ _ _ _ _ ih =>
    simp only [List.append_assoc] at hc
    obtain ⟨c₁, hx, hc⟩ := Cursor.spans_append.1 hc
    refine ih he hx ho ?_
    rw [hc.rest]
    simp only [List.append_assoc]
    exact (ends_bracket hg (.inl rfl)).token
  | index h hg _ _ _ _ ih =>
    simp only [List.append_assoc] at hc
    obtain ⟨c₁, hx, hc⟩ := Cursor.spans_append.1 hc
    refine ih he hx ho ?_
    rw [hc.rest]
    simp only [List.append_assoc]
    exact (ends_bracket hg (.inr rfl)).token
  | unary op hg ho' h ih =>
    subst ho ho'
    rw [Expr.attempt] at he
    split at he
    · cases he
    · next hne =>
      obtain ⟨c₂, hc, hx⟩ := Cursor.spans_append.1 hc
      obtain ⟨c₁, hop, hs⟩ := Cursor.spans_append.1 hc
      exact stops_of hw table_prefix rfl (.alt_stop (.seq_stop_second (prefix_operator op hop)
        (skip_gap hw hg hs (by rw [hx.rest]; exact h.solid _) _)
        (h.operand_stops hw hne (fun he => ih he hx hc.offset hd) hx hc.offset hd (argumentsOf_forward rfl rfl))))
  | binary op hk h hg hg' hdiv ho' h' ih ih' =>
    rename_i g' y _ _
    subst ho ho' hk
    obtain ⟨c₄, hc, hy⟩ := Cursor.spans_append.1 hc
    obtain ⟨c₃, hc', hs'⟩ := Cursor.spans_append.1 hc
    obtain ⟨c₂, hc', hop⟩ := Cursor.spans_append.1 hc'
    obtain ⟨c₁, hx, hs⟩ := Cursor.spans_append.1 hc'
    have hrest : c₂.rest = op.symbol.toList ++ (g' ++ y ++ d.rest) := by
      rw [((hop.trans hs').trans hy).rest]
      simp
    have hsolid : Solid c₂.rest := by rw [hrest]; exact h'.solid_operator hg' hdiv _
    have hends : Ends (op.level + 1) c₁.rest := by
      rw [hs.rest, hrest]
      exact ends_operator hg (h'.alone hg' _) (h'.solid_operator hg' hdiv _)
    rw [Expr.ofOperands, Expr.attempt] at he
    split at he
    · next hl =>
      split at he
      · cases he
      · next hr =>
        -- The left operand is a target, and the right one is not.
        have hat : operatorAt c₂.rest = some op := by rw [hrest]; exact operatorAt_symbol op (h'.alone hg' _)
        have hleft := ((h.target hl).read hw hx rfl).binary op.level_lt hends
        have hne : c₁.rest ≠ [] := by
          rw [hs.rest, hrest]
          cases op <;> simp [BinaryOp.symbol]
        refine hleft.stops fun ctx hctx => .rounds_stop hne (skip_gap hw hg hs hsolid ctx) (.seq_stop_second
          (binary_operator op hat hop) (skip_gap hw hg' hs' (by rw [hy.rest]; exact h'.solid _) _)
          (h'.operand_stops hw hr (fun he => ih' he hy hc.offset hd) hy hc.offset hd (argumentsOf_forward rfl ?_)))
        rw [get?_set_ne _ _ (by decide), hctx.mode]
    · exact ih he hx rfl hends.token
  | lift hk h ih =>
    rename_i k _ _ _
    have hstop := ih he hc ho hd
    obtain hk | rfl | rfl : k < 7 ∨ k = 7 ∨ k = 8 := by omega
    · obtain rfl | rfl | rfl | rfl | rfl | rfl | rfl :
          k = 0 ∨ k = 1 ∨ k = 2 ∨ k = 3 ∨ k = 4 ∨ k = 5 ∨ k = 6 := by omega
      all_goals
        refine stops_of hw (table_binary ?_) rfl (.seq_stop_first (hstop.call rfl (argumentsOf_forward rfl rfl) rfl))
        decide
    · obtain ⟨ch, y, rfl, -, hsign⟩ := h.head
      refine stops_of hw table_prefix rfl (.alt_second (.seq_first (.act_miss (unary_miss ?_)))
        (hstop.call rfl (argumentsOf_forward rfl rfl) rfl))
      rw [hc.rest]
      rintro _ ⟨⟩
      exact hsign (by decide)
    · exact stops_of hw table_postfix rfl (.seq_stop_first (hstop.call rfl (argumentsOf_forward rfl rfl) rfl))

end

end PegFront.Cminor
