import PegFront.Proofs.Raises
import PegFront.Proofs.Cminor.Quotes

/-!
# Integers

A run of digits, or of hexadecimal digits behind a mark, is an integer whatever its length. If its value fits in 64 bits,
the source that it makes up is a literal with this value; if not, the action that decodes it raises an error, and from the
rule of integers up to that of expressions nothing else is tried (`expression_overflows`), so the error is the answer of
the parse (`parseExpression_integer`).
-/

namespace PegFront.Cminor

/-! ## Texts of integers -/

/-- The texts of integers and their values, whether these fit in 64 bits or not. -/
inductive IntegerText : List Char → Nat → Prop
  | hex {ch x} (hch : ch = 'x' ∨ ch = 'X') (hx : Run .hexDigit x) : IntegerText ('0' :: ch :: x) (valueIn 16 x)
  | decimal {x} (hx : Run .digit x) : IntegerText x (valueIn 10 x)

section
variable {x : List Char} {n : Nat}

theorem numeral_hex (hx : Run .hexDigit x) : numeral 16 x = valueIn 16 x := numeral_eq hx.2

theorem numeral_decimal (hx : Run .digit x) : numeral 10 x = valueIn 10 x :=
  numeral_eq fun ch h => isHexDigit_of_digit (hx.2 ch h)

theorem IntegerText.literal (h : IntegerText x n) (hn : n < wordCount64) : LiteralText x (.int n) := by
  cases h with
  | hex hch hx => exact numeral_hex hx ▸ .hex hch hx (by rwa [numeral_hex hx])
  | decimal hx => exact numeral_decimal hx ▸ .decimal hx (by rwa [numeral_decimal hx])

theorem IntegerText.head (h : IntegerText x n) : ∃ ch y, x = ch :: y ∧ ch.isDigit = true := by
  cases h with
  | hex => exact ⟨_, _, rfl, by decide⟩
  | decimal hx => exact run_head hx

/-- A digit begins neither a gap nor anything an expression may begin with but a literal. -/
theorem isDigit_apart {ch : Char} (h : ch.isDigit = true) :
    Text.isBlank ch = false ∧ ch ≠ '/' ∧ ch ≠ '(' ∧ ch ≠ '-' ∧ ch ≠ '+' ∧ ch ≠ '!' ∧ ch ≠ '~' := by
  have hopen : isOpening ch = true := by simp [isOpening, h]
  refine ⟨(isOpening_apart hopen).1, ?_, ?_, ?_, ?_, ?_, ?_⟩ <;> rintro rfl <;> cases h

end

/-! ## Errors on the way up -/

/-- The rule with a name comes to an integer between two places that does not fit. -/
def Oversized (w : World Value) (skip : Option RuleId) (name : String) (args : List Value) (c : Cursor) (x : List Char)
    (d : Cursor) : Prop :=
  Raises w skip (.literalOverflow (String.ofList x) "ulong") (w.span c d) (.rule (idOf name) args) c

section
variable {w : World Value} {skip : Option RuleId} {name : String} {args : List Value} {c d : Cursor} {x : List Char}
  {caller callee : Rule Value} {k : Call} {ctx : Context Value} {n : Nat}

theorem Oversized.call (h : Oversized w skip name args c x d) (ht : k.target = some (idOf name))
    (ha : caller.argumentsOf k ctx = args) (hl : args.length = k.arity) :
    Raises w skip (.literalOverflow (String.ofList x) "ulong") (w.span c d) (.pattern caller (.call k) ctx) c := by
  subst ha
  exact .call ht hl h

theorem overflows_of (hw : w.rules = table) (hr : table[idOf name]? = some callee) (ha : args.length = callee.arity)
    (h : Raises w skip (.literalOverflow (String.ofList x) "ulong") (w.span c d)
      (.pattern callee callee.definition (.enter callee.attributes args c.offset)) c) :
    Oversized w skip name args c x d :=
  .rule (hw ▸ hr) ha h

theorem setInt_overflows {text : String} (hn : ¬ n < wordCount64) :
    Literals.setInt ctx text n = (.fail (.literalOverflow text "ulong"), ctx) := if_neg hn

theorem integer_overflows (hw : w.rules = table) (h : IntegerText x n) (hn : ¬ n < wordCount64) (hc : c.Spans x d)
    (hd : TokenEnd d.rest) : Oversized w skip "IntegerLiteral" [] c x d := by
  refine overflows_of hw table_integer rfl ?_
  have hspan : (w.matched c d).span = w.span c d := rfl
  cases h with
  | @hex ch x hch hx =>
    have hfail : ∀ ctx, Literals.hex ctx (w.matched c d) =
        (.fail (.literalOverflow (String.ofList ('0' :: ch :: x)) "ulong"), ctx) := by
      intro ctx
      rw [w.matched_of_spans hc, Literals.hex, String.toList_ofList]
      exact setInt_overflows (by rwa [List.drop_succ_cons, List.drop_succ_cons, List.drop_zero, numeral_hex hx])
    exact .alt_first (.fail (hex_call_hit hw hch hx hc hd.hexDigit) rfl (hfail _) hspan)
  | decimal hx =>
    have hfail : ∀ ctx, Literals.decimal ctx (w.matched c d) = (.fail (.literalOverflow (String.ofList x) "ulong"), ctx) := by
      intro ctx
      rw [w.matched_of_spans hc, Literals.decimal, String.toList_ofList]
      exact setInt_overflows (by rwa [numeral_decimal hx])
    have hmark : ¬ ['0', 'x'] <+: c.rest ∧ ¬ ['0', 'X'] <+: c.rest :=
      ⟨not_hex_of_digits (.inl rfl) hx hc hd, not_hex_of_digits (.inr rfl) hx hc hd⟩
    exact .alt_second (.act_miss (hex_call_miss hw hmark))
      (.fail (lexical_call_hit hw uint_mem rfl rfl (digits_hit hw rfl hx hc hd.digit)) rfl (hfail _) hspan)

theorem literal_overflows (hw : w.rules = table) (h : IntegerText x n) (hn : ¬ n < wordCount64) (hc : c.Spans x d)
    (hd : TokenEnd d.rest) : Oversized w skip "Literal" [] c x d := by
  have hbefore : ∀ m ∈ ["BooleanLiteral", "FloatingLiteral"], Misses w skip m [] c := by
    cases h with
    | hex hch hx => exact hex_apart hw hch hc
    | decimal hx => exact decimal_apart hw hx hc hd
  have hmiss : ∀ {m}, m ∈ ["BooleanLiteral", "FloatingLiteral"] → ∀ ctx,
      Derives w skip (.pattern literalRule (aimed (.rule m)) ctx) c (.miss ctx) := fun hm ctx =>
    chooses_literal.miss (by revert hm; simp [Literals.alternatives]; grind) (hbefore _ hm)
  refine overflows_of hw table_literal rfl ?_
  rw [chooses_literal.definition]
  -- Two alternatives come before integers, and three after them.
  exact .alt_first (.alt_first (.alt_first (.alt_second
    (.alt_second (hmiss (by simp) _) (hmiss (by simp) _)) ((integer_overflows hw h hn hc hd).call rfl rfl rfl))))

variable {lv : Bool} {level : Nat}

theorem binary_overflows (hw : w.rules = table) (hk : level < 7)
    (h : Oversized w blanks (levelName (level + 1)) [.mode ⟨lv⟩] c x d) : Oversized w blanks (levelName level) [.mode ⟨lv⟩] c x d := by
  refine overflows_of hw (table_binary hk) rfl ?_
  rw [binaryRule_definition hk]
  exact .seq_first (h.call rfl (argumentsOf_forward rfl rfl) rfl)

/-- The first operand is read before any operator. -/
theorem expression_overflows (hw : w.rules = table) (h : IntegerText x n) (hn : ¬ n < wordCount64) (hc : c.Spans x d)
    (hd : TokenEnd d.rest) : Oversized w blanks "Expression" [.mode ⟨lv⟩] c x d := by
  obtain ⟨ch, y, hx, hdigit⟩ := h.head
  have hhead : c.rest.head? = some ch := by rw [hc.rest, hx]; rfl
  obtain ⟨-, -, hparen, hsign⟩ := isDigit_apart hdigit
  have hprimary : Oversized w blanks "Primary" [.mode ⟨lv⟩] c x d :=
    overflows_of hw table_primary rfl (.alt_first (.alt_first (.alt_second
      (paren_miss (by rw [hhead]; rintro ⟨⟩; exact hparen rfl))
      (.act ((literal_overflows hw h hn hc hd).call rfl rfl rfl)))))
  have hsuffixed : Oversized w blanks "Postfix" [.mode ⟨lv⟩] c x d :=
    overflows_of hw table_postfix rfl (.seq_first (hprimary.call rfl (argumentsOf_forward rfl rfl) rfl))
  have hsigned : Oversized w blanks (levelName 7) [.mode ⟨lv⟩] c x d :=
    overflows_of hw table_prefix rfl (.alt_second
      (.seq_first (.act_miss (unary_miss (by rw [hhead]; rintro _ ⟨⟩; exact hsign))))
      (hsuffixed.call rfl (argumentsOf_forward rfl rfl) rfl))
  have hlevel : ∀ k ≤ 7, Oversized w blanks (levelName k) [.mode ⟨lv⟩] c x d := fun k hk =>
    Nat.decreasingInduction (fun k hk ih => binary_overflows hw hk ih) hsigned hk
  exact overflows_of hw table_expression rfl ((hlevel 0 (by decide)).call rfl (argumentsOf_forward rfl rfl) rfl)

end

/-! ## Answers -/

section
variable {fileIndex n : Nat} {source file : String}

/-- A parse that comes to an action which fails answers with its error. -/
theorem parse_raises {kind : SourceKind} {options : Options} {session : Session Value} {cause : Cause} {span : Span}
    {c : Cursor}
    (hskip : Derives (world options.fileIndex options.file) blanks (.skip .empty) ⟨0, source.toList⟩ (.hit .empty c))
    (h : Raises (world options.fileIndex options.file) blanks cause span (.rule (idOf kind.startRule) kind.startArgs) c) :
    (parse kind source options session).1 = .error (.error (.located cause "parse" options.file source.toList span)) := by
  obtain ⟨d, g, rule, hd, hrules, hg, hstart, hblanks, hrule, hgrounded, harity, -⟩ := exists_entry kind
  have hmem : g ∈ d.grammars := List.mem_of_find?_eq_some hg
  have hworld : world options.fileIndex options.file = ⟨d.rules, options.file, options.fileIndex⟩ := by
    rw [hrules]
    rfl
  rw [hworld, ← hblanks] at hskip h
  have hrun := parseIn_raises (Registry.linked (link_of_domain hd)) hgrounded hmem hstart hrule harity session hskip h
  rw [parse_eq hd]
  rcases hout : d.parseIn g source options kind.startArgs session with ⟨outcome, session'⟩
  rw [hout] at hrun
  cases hrun
  rw [parseWith_of_error hg hout]

/-- What a source that is an integer from end to end is read as: its value if that fits, and an error about all of it
if not. -/
def integerAnswer (fileIndex : Nat) (file source : String) (n : Nat) : Except Stop Expr :=
  if n < 2 ^ 64 then .ok (.literal (.int n) ⟨fileIndex, 0, source.utf8ByteSize⟩)
  else .error (.error (.located (.literalOverflow source "ulong") "parse" file source.toList
    ⟨fileIndex, 0, source.utf8ByteSize⟩))

theorem parseExpression_of_integerText (h : IntegerText source.toList n) :
    parseExpression source fileIndex file = integerAnswer fileIndex file source n := by
  unfold integerAnswer
  by_cases hn : n < wordCount64
  · rw [if_pos (show n < 2 ^ 64 from hn)]
    exact parseExpression_literal (h.literal hn)
  · rw [if_neg (show ¬ n < 2 ^ 64 from hn)]
    obtain ⟨ch, y, hx, hdigit⟩ := h.head
    obtain ⟨hblank, hslash, -⟩ := isDigit_apart hdigit
    have hsolid : Solid source.toList := by rw [hx]; exact solid_cons hblank hslash _
    have hspan : (⟨0, source.toList⟩ : Cursor).Spans source.toList ⟨source.utf8ByteSize, []⟩ :=
      ⟨(List.append_nil _).symm, by rw [Text.byteLength_toList, Nat.zero_add]⟩
    let options : Options := { file, fileIndex }
    have hraises : Oversized (world options.fileIndex options.file) blanks "Expression" [.mode {}] ⟨0, source.toList⟩ source.toList
        ⟨source.utf8ByteSize, []⟩ := expression_overflows rfl h hn hspan (ends_nothing (k := 0) rfl).token
    unfold Oversized at hraises
    rw [String.ofList_toList] at hraises
    have hparse : (parse .expression source options {}).1 = .error (.error (.located (.literalOverflow source "ulong") "parse"
        file source.toList ⟨fileIndex, 0, source.utf8ByteSize⟩)) :=
      parse_raises (skip_gap rfl .nil .rfl hsolid .empty) hraises
    unfold parseExpression parseFile
    rw [hparse]
    rfl

/-- Digits are read as the value they have in base 10, and hexadecimal digits behind a mark as the one they have in base 16,
unless it takes more than 64 bits. How many digits there are has no say in it, and zeros in front change no value. -/
theorem parseExpression_integer (fileIndex : Nat) (file : String) :
    (∀ ds : String, Run .digit ds.toList →
      parseExpression ds fileIndex file = integerAnswer fileIndex file ds (valueIn 10 ds.toList)) ∧
    (∀ mark hs : String, mark = "0x" ∨ mark = "0X" → Run .hexDigit hs.toList →
      parseExpression (mark ++ hs) fileIndex file = integerAnswer fileIndex file (mark ++ hs) (valueIn 16 hs.toList)) ∧
    ∀ (base zeros : Nat) (x : List Char), valueIn base (List.replicate zeros '0' ++ x) = valueIn base x := by
  refine ⟨fun ds hds => parseExpression_of_integerText (.decimal hds), fun mark hs hmark hhs => ?_, valueIn_zeros⟩
  refine parseExpression_of_integerText ?_
  rw [String.toList_append]
  rcases hmark with rfl | rfl
  · exact .hex (.inl rfl) hhs
  · exact .hex (.inr rfl) hhs

/-- The largest number that fits, the one after it, and one with zeros in front. -/
theorem parseExpression_integer_limit :
    parseExpression "18446744073709551615" 0 "f" = .ok (.literal (.int 18446744073709551615) ⟨0, 0, 20⟩) ∧
      parseExpression "18446744073709551616" 0 "f" = .error (.error (.located
        (.literalOverflow "18446744073709551616" "ulong") "parse" "f" "18446744073709551616".toList ⟨0, 0, 20⟩)) ∧
      parseExpression ("0X" ++ "00000000000000000e1F") 0 "f" = .ok (.literal (.int 3615) ⟨0, 0, 22⟩) := by
  obtain ⟨hdecimal, hhex, -⟩ := parseExpression_integer 0 "f"
  refine ⟨(hdecimal "18446744073709551615" ⟨by decide, List.all_eq_true.1 rfl⟩).trans ?_,
    (hdecimal "18446744073709551616" ⟨by decide, List.all_eq_true.1 rfl⟩).trans ?_,
    (hhex "0X" "00000000000000000e1F" (.inr rfl) ⟨by decide, List.all_eq_true.1 rfl⟩).trans ?_⟩
  · have hvalue : valueIn 10 "18446744073709551615".toList = 18446744073709551615 := by decide
    rw [hvalue]
    rfl
  · have hvalue : valueIn 10 "18446744073709551616".toList = 18446744073709551616 := by decide
    rw [hvalue]
    rfl
  · have hvalue : valueIn 16 "00000000000000000e1F".toList = 3615 := by decide
    rw [hvalue]
    rfl

end

end PegFront.Cminor
