import Mathlib.Data.List.TakeWhile
import PegFront.Proofs.Cminor.Numerals

/-!
# Texts between quotes

The text between the quotes of a literal is a row of pieces, each a char that stands for itself or an escape, and each
piece stands for one char (`Piece`, `Pieces`). The rules that find the end of a literal and the decoding of its text are
two scanners of their own; together they accept these rows and nothing else (`quoted_unescape_iff`,
`charBody_unescape_iff`), so a source in quotes is a literal just if its text is one (`parseExpression_quoted`).
-/

namespace PegFront.Cminor

/-! ## Pieces -/

/-- The chars that letters and signs stand for behind a backslash. -/
def namedEscapes : List (Char × Char) :=
  [('a', '\x07'), ('b', '\x08'), ('f', '\x0c'), ('n', '\n'), ('r', '\r'), ('t', '\t'), ('v', '\x0b'), ('\'', '\''),
    ('"', '"'), ('\\', '\\'), ('?', '?')]

/-- An escape before the char that follows it, and what it stands for. Digits go on as long as there are any, but for the
four behind `u`. -/
inductive Escaped : List Char → Option Char → Char → Prop
  | hex {e x next ch} (he : e = 'x' ∨ e = 'X') (hx : Run .hexDigit x) (hn : ∀ d ∈ next, Text.isHexDigit d = false)
      (hv : ch.toNat = valueIn 16 x) : Escaped ('\\' :: e :: x) next ch
  | code {x next ch} (hx : Run .hexDigit x) (hlen : x.length = 4) (hv : ch.toNat = valueIn 16 x) :
      Escaped ('\\' :: 'u' :: x) next ch
  | octal {x next ch} (hne : x ≠ []) (hx : ∀ d ∈ x, Text.isOctalDigit d = true)
      (hn : ∀ d ∈ next, Text.isOctalDigit d = false) (hv : ch.toNat = valueIn 8 x) : Escaped ('\\' :: x) next ch
  | named {e next ch} (h : (e, ch) ∈ namedEscapes) : Escaped ['\\', e] next ch

/-- What stands for one char between quotes. -/
inductive Piece (quote : Char) : List Char → Option Char → Char → Prop
  | plain {ch next} (h : Plain quote ch) : Piece quote [ch] next ch
  | escape {x next ch} (h : Escaped x next ch) : Piece quote x next ch

/-- A row of pieces up to a quote, and the chars they stand for. -/
inductive Pieces (quote : Char) : List Char → List Char → Prop
  | nil : Pieces quote [] []
  | cons {x y ch s} (h : Piece quote x (y ++ [quote]).head? ch) (hy : Pieces quote y s) : Pieces quote (x ++ y) (ch :: s)

/-! ## Decoding an escape -/

section
variable {e ch : Char} {x y t t' : List Char} {next : Option Char} {p : Char → Bool}

theorem octal_apart (h : Text.isOctalDigit e = true) : e ≠ 'x' ∧ e ≠ 'X' ∧ e ≠ 'u' := by
  refine ⟨?_, ?_, ?_⟩ <;> rintro rfl <;> exact Bool.noConfusion h

theorem namedEscapes_names : namedEscapes.map Prod.fst = "abfnrtv'\"\\?".toList := rfl

theorem named_apart (h : (e, ch) ∈ namedEscapes) : e ≠ 'x' ∧ e ≠ 'X' ∧ e ≠ 'u' ∧ Text.isOctalDigit e = false := by
  have hall : ∀ p ∈ namedEscapes, p.1 ≠ 'x' ∧ p.1 ≠ 'X' ∧ p.1 ≠ 'u' ∧ Text.isOctalDigit p.1 = false := by decide
  exact hall _ h

theorem simpleEscape?_eq_some_iff : simpleEscape? e = some ch ↔ (e, ch) ∈ namedEscapes := by
  constructor
  · intro h
    unfold simpleEscape? at h
    split at h <;> cases h <;> decide
  · have hall : ∀ p ∈ namedEscapes, simpleEscape? p.1 = some p.2 := by decide
    exact hall (e, ch)

theorem escape?_hex (he : e = 'x' ∨ e = 'X') (hx : Run .hexDigit x) (ht : ∀ d ∈ t.head?, Text.isHexDigit d = false) :
    escape? e (x ++ t) = (numericEscape? 16 x).map (·, t) := by
  obtain ⟨htake, hdrop⟩ := takeWhile_run hx.2 ht
  rw [escape?, if_pos (by simpa using he)]
  exact congrArg₂ (fun y u => (numericEscape? 16 y).map (·, u)) htake hdrop

theorem escape?_code (hx : Run .hexDigit x) (hlen : x.length = 4) :
    escape? 'u' (x ++ t) = (numericEscape? 16 x).map (·, t) := by
  have htake : ((x ++ t).take 4).takeWhile Text.isHexDigit = x := by
    rw [← hlen, List.take_left]
    exact List.takeWhile_eq_self_iff.2 hx.2
  rw [escape?, if_neg (by decide), if_pos rfl]
  simp only [htake]
  rw [if_pos hlen, ← hlen, List.drop_left]

theorem escape?_octal (hx : ∀ d ∈ e :: x, Text.isOctalDigit d = true) (ht : ∀ d ∈ t.head?, Text.isOctalDigit d = false) :
    escape? e (x ++ t) = (numericEscape? 8 (e :: x)).map (·, t) := by
  obtain ⟨he, hx⟩ := List.forall_mem_cons.1 hx
  obtain ⟨htake, hdrop⟩ := takeWhile_run hx ht
  obtain ⟨hx, hX, hu⟩ := octal_apart he
  rw [escape?, if_neg (by simp [hx, hX]), if_neg hu, if_pos he, htake, hdrop]

theorem escape?_named (h : (e, ch) ∈ namedEscapes) : escape? e t = some (ch, t) := by
  obtain ⟨hx, hX, hu, hoctal⟩ := named_apart h
  rw [escape?, if_neg (by simp [hx, hX]), if_neg hu, if_neg (by simp [hoctal]), simpleEscape?_eq_some_iff.2 h]
  rfl

theorem isHexDigit_of_octal (hx : ∀ d ∈ x, Text.isOctalDigit d = true) : ∀ d ∈ x, Text.isHexDigit d = true :=
  fun d hd => isHexDigit_of_digit (isDigit_of_octalDigit (hx d hd))

theorem Escape.cons (h : Escape x next) : ∃ e y, x = '\\' :: e :: y := by
  cases h with
  | octal hne =>
    obtain ⟨e, y, rfl⟩ := List.exists_cons_of_ne_nil hne
    exact ⟨e, y, rfl⟩
  | _ => exact ⟨_, _, rfl⟩

theorem Escaped.escape (h : Escaped x next ch) : Escape x next := by
  cases h with
  | hex he hx hn => exact .hex he hx hn
  | @code x _ _ hx hlen =>
    obtain ⟨a, b, c, d, rfl⟩ := List.length_eq_four.1 hlen
    have hall := hx.2
    exact .code (hall a (by simp)) (hall b (by simp)) (hall c (by simp)) (hall d (by simp))
  | octal hne hx hn => exact .octal hne hx hn
  | named h => exact .simple (namedEscapes_names ▸ List.mem_map_of_mem h)

/-- The decoding of what has the form of an escape takes all of it, and if it stands for a char, gives that char. -/
theorem Escape.decode (h : Escape ('\\' :: e :: x) next) (ht : ∀ d ∈ t.head?, d ∈ next) :
    ∃ r : Option Char, escape? e (x ++ t) = r.map (·, t) ∧ ∀ ch, r = some ch → Escaped ('\\' :: e :: x) next ch := by
  cases h with
  | hex he hx hn =>
    exact ⟨_, escape?_hex he hx fun d hd => hn d (ht d hd),
      fun ch h => .hex he hx hn ((numericEscape?_eq_some_iff hx.1 hx.2).1 h)⟩
  | @code a b c d _ ha hb hc hd =>
    have hx : Run .hexDigit [a, b, c, d] := ⟨List.cons_ne_nil _ _, by simp [CharKind.accepts, ha, hb, hc, hd]⟩
    exact ⟨_, escape?_code hx rfl, fun ch h => .code hx rfl ((numericEscape?_eq_some_iff hx.1 hx.2).1 h)⟩
  | octal hne hx hn =>
    exact ⟨_, escape?_octal hx fun d hd => hn d (ht d hd),
      fun ch h => .octal hne hx hn ((numericEscape?_eq_some_iff hne (isHexDigit_of_octal hx)).1 h)⟩
  | simple he =>
    rw [← namedEscapes_names, List.mem_map] at he
    obtain ⟨⟨_, ch⟩, hmem, rfl⟩ := he
    exact ⟨some ch, escape?_named hmem, fun ch' h => Option.some.inj h ▸ .named hmem⟩

theorem Escaped.decode (h : Escaped ('\\' :: e :: x) next ch) (ht : ∀ d ∈ t.head?, d ∈ next) :
    escape? e (x ++ t) = some (ch, t) := by
  cases h with
  | hex he hx hn hv =>
    rw [escape?_hex he hx fun d hd => hn d (ht d hd), (numericEscape?_eq_some_iff hx.1 hx.2).2 hv]
    rfl
  | code hx hlen hv =>
    rw [escape?_code hx hlen, (numericEscape?_eq_some_iff hx.1 hx.2).2 hv]
    rfl
  | octal hne hx hn hv =>
    rw [escape?_octal hx fun d hd => hn d (ht d hd), (numericEscape?_eq_some_iff hne (isHexDigit_of_octal hx)).2 hv]
    rfl
  | named h => exact escape?_named h

/-! ## Decoding a text -/

/-- What is left of a text behind an escape is no longer. -/
theorem length_of_escape? (h : escape? e t = some (ch, t')) : t'.length ≤ t.length := by
  have hleft : ∀ {u : List Char} {r : Option Char}, u.length ≤ t.length → r.map (·, u) = some (ch, t') →
      t'.length ≤ t.length := by
    intro u r hu hr
    obtain ⟨_, -, hr⟩ := Option.map_eq_some_iff.1 hr
    cases hr
    exact hu
  unfold escape? at h
  dsimp only at h
  split at h
  · exact hleft (List.dropWhile_sublist _).length_le h
  split at h
  · split at h
    · exact hleft (List.drop_sublist _ _).length_le h
    · cases h
  split at h
  · exact hleft (List.dropWhile_sublist _).length_le h
  · exact hleft (Nat.le_refl _) h

theorem unescapeWith_plain (fuel : Nat) (h : ch ≠ '\\') :
    unescapeWith (fuel + 1) (ch :: t) = (unescapeWith fuel t).map (ch :: ·) := by
  rw [unescapeWith.eq_def]
  exact if_neg h

theorem unescapeWith_escape (fuel : Nat) (e : Char) (t : List Char) : unescapeWith (fuel + 1) ('\\' :: e :: t) =
    (escape? e t).bind fun p => (unescapeWith fuel p.2).map (p.1 :: ·) := by
  rw [unescapeWith, if_pos rfl]
  cases escape? e t <;> rfl

/-- Fuel for every char is enough. -/
theorem unescapeWith_agree : ∀ (fuel fuel' : Nat) (t : List Char), t.length ≤ fuel → t.length ≤ fuel' →
    unescapeWith fuel t = unescapeWith fuel' t := by
  intro fuel
  induction fuel with
  | zero =>
    intro fuel' t h _
    obtain rfl := List.length_eq_zero_iff.1 (Nat.le_zero.1 h)
    cases fuel' <;> rfl
  | succ fuel ih =>
    intro fuel' t h h'
    cases t with
    | nil => cases fuel' <;> rfl
    | cons c t =>
      rw [List.length_cons] at h h'
      obtain ⟨fuel', rfl⟩ := Nat.exists_eq_succ_of_ne_zero (Nat.ne_zero_of_lt h')
      by_cases hc : c = '\\'
      · subst hc
        cases t with
        | nil => rfl
        | cons e t =>
          rw [unescapeWith_escape, unescapeWith_escape]
          cases hescape : escape? e t with
          | none => rfl
          | some p =>
            have hlen := length_of_escape? hescape
            rw [List.length_cons] at h h'
            rw [Option.bind_some, Option.bind_some, ih fuel' p.2 (by omega) (by omega)]
      · rw [unescapeWith_plain _ hc, unescapeWith_plain _ hc, ih fuel' t (by omega) (by omega)]

theorem unescape?_plain (h : ch ≠ '\\') : unescape? (ch :: t) = (unescape? t).map (ch :: ·) :=
  unescapeWith_plain _ h

theorem unescape?_escape {r : Option Char} (h : escape? e t = r.map (·, t')) :
    unescape? ('\\' :: e :: t) = r.bind fun ch => (unescape? t').map (ch :: ·) := by
  rw [unescape?, List.length_cons, unescapeWith_escape, h]
  cases r with
  | none => rfl
  | some ch =>
    have hlen := length_of_escape? h
    rw [Option.map_some, Option.bind_some, Option.bind_some, unescape?,
      unescapeWith_agree _ t'.length t' (by rw [List.length_cons]; omega) (Nat.le_refl _)]

/-! ## Rows of pieces -/

theorem head?_append_of_mem {u : List Char} : ∀ d ∈ t.head?, d ∈ (t ++ u).head? := by
  cases t with
  | nil => exact nofun
  | cons c t => exact fun _ h => h

variable {quote : Char} {s : List Char}

theorem Pieces.of_unescape? (h : Quoted quote x) (hs : unescape? x = some s) : Pieces quote x s := by
  induction h generalizing s with
  | nil =>
    cases hs
    exact .nil
  | plain hc _ ih =>
    rw [unescape?_plain hc.1] at hs
    obtain ⟨_, hmore, rfl⟩ := Option.map_eq_some_iff.1 hs
    exact .cons (.plain hc) (ih hmore)
  | escape he _ ih =>
    obtain ⟨e, y, rfl⟩ := he.cons
    obtain ⟨r, hr, hescaped⟩ := he.decode head?_append_of_mem
    rw [List.cons_append, List.cons_append, unescape?_escape hr] at hs
    obtain ⟨ch, rfl, hrest⟩ := Option.bind_eq_some_iff.1 hs
    obtain ⟨_, hmore, rfl⟩ := Option.map_eq_some_iff.1 hrest
    exact .cons (.escape (hescaped ch rfl)) (ih hmore)

theorem Pieces.quoted (h : Pieces quote x s) : Quoted quote x := by
  induction h with
  | nil => exact .nil
  | cons h _ ih =>
    cases h with
    | plain h => exact .plain h ih
    | escape h => exact .escape h.escape ih

theorem Pieces.decode (h : Pieces quote x s) : unescape? x = some s := by
  induction h with
  | nil => rfl
  | cons h _ ih =>
    cases h with
    | plain h =>
      rw [List.singleton_append, unescape?_plain h.1, ih]
      rfl
    | escape h =>
      obtain ⟨e, y, rfl⟩ := h.escape.cons
      rw [List.cons_append, List.cons_append, unescape?_escape (r := some _) (h.decode head?_append_of_mem), ih]
      rfl

/-- What is read between quotes and decoded is a row of pieces. -/
theorem quoted_unescape_iff : Quoted quote x ∧ unescape? x = some s ↔ Pieces quote x s :=
  ⟨fun ⟨h, hs⟩ => .of_unescape? h hs, fun h => ⟨h.quoted, h.decode⟩⟩

/-- What is read between single quotes and decoded as one char is one piece. -/
theorem charBody_unescape_iff : CharBody x ∧ unescape? x = some [ch] ↔ Piece '\'' x (some '\'') ch := by
  constructor
  · rintro ⟨⟨c, hc, rfl⟩ | he, hs⟩
    · rw [unescape?_plain hc.1] at hs
      cases hs
      exact .plain hc
    · obtain ⟨e, y, rfl⟩ := he.cons
      obtain ⟨r, hr, hescaped⟩ := he.decode (t := []) nofun
      rw [List.append_nil] at hr
      rw [unescape?_escape hr] at hs
      obtain ⟨c, rfl, hs⟩ := Option.bind_eq_some_iff.1 hs
      cases hs
      exact .escape (hescaped _ rfl)
  · rintro (h | h)
    · exact ⟨.inl ⟨ch, h, rfl⟩, unescape?_plain h.1⟩
    · refine ⟨.inr h.escape, ?_⟩
      obtain ⟨e, y, rfl⟩ := h.escape.cons
      have hdecode := h.decode (t := []) nofun
      rw [List.append_nil] at hdecode
      exact unescape?_escape (r := some ch) hdecode

end

/-! ## Sources in quotes -/

section
variable {f k o fileIndex : Nat} {lv : Bool} {x : List Char} {l : Literal} {span : Span} {source file : String}

theorem literalText_string_iff {v : String} : LiteralText (['"'] ++ x ++ ['"']) (.string v) ↔ Pieces '"' x v.toList := by
  rw [← quoted_unescape_iff]
  constructor
  · intro h
    generalize hy : ['"'] ++ x ++ ['"'] = y at h
    cases h with
    | string hx hs =>
      obtain rfl := List.append_cancel_left (List.append_cancel_right hy)
      rw [String.toList_ofList]
      exact ⟨hx, hs⟩
  · rintro ⟨hx, hs⟩
    have htext := LiteralText.string hx hs
    rwa [String.ofList_toList] at htext

theorem literalText_char_iff {ch : Char} : LiteralText (['\''] ++ x ++ ['\'']) (.char ch) ↔ Piece '\'' x (some '\'') ch := by
  rw [← charBody_unescape_iff]
  constructor
  · intro h
    generalize hy : ['\''] ++ x ++ ['\''] = y at h
    cases h with
    | char hx hs =>
      obtain rfl := List.append_cancel_left (List.append_cancel_right hy)
      exact ⟨hx, hs⟩
  · rintro ⟨hx, hs⟩
    exact .char hx hs

/-- A literal is read off its own text or off one in parentheses. -/
theorem Reads.literal_inv (h : Reads f lv k o x (.literal l span)) :
    LiteralText x l ∧ span = spanAt f o x ∨ x.head? = some '(' := by
  generalize he : Expr.literal l span = e at h
  induction h with
  | literal h =>
    cases he
    exact .inl ⟨h, rfl⟩
  | paren => exact .inr rfl
  | lift _ _ ih => exact ih he
  | _ => cases he

/-- A source that is a literal from end to end parses as it. -/
theorem parseExpression_literal (h : LiteralText source.toList l) :
    parseExpression source fileIndex file = .ok (.literal l ⟨fileIndex, 0, source.utf8ByteSize⟩) := by
  have hreads : Reads fileIndex false 9 0 source.toList (.literal l ⟨fileIndex, 0, source.utf8ByteSize⟩) := by
    have hspan : spanAt fileIndex 0 source.toList = ⟨fileIndex, 0, source.utf8ByteSize⟩ := by
      rw [spanAt, Text.byteLength_toList, Nat.zero_add]
    exact hspan ▸ Reads.literal h
  exact parseExpression_eq_ok_iff.2 ⟨[], source.toList, [], by simp, .nil, hreads.loosen (Nat.zero_le _), rfl⟩

/-- A literal that takes up a whole source is its text, unless the source begins with a gap or a parenthesis. -/
theorem literalText_of_parse {ch : Char} (hhead : source.toList.head? = some ch) (hch : Text.isBlank ch = false)
    (hslash : ch ≠ '/') (hparen : ch ≠ '(')
    (h : parseExpression source fileIndex file = .ok (.literal l ⟨fileIndex, 0, source.utf8ByteSize⟩)) :
    LiteralText source.toList l := by
  obtain ⟨lead, x, trail, hsource, hlead, hreads, -⟩ := parseExpression_eq_ok_iff.1 h
  obtain rfl : lead = [] := by
    cases lead with
    | nil => rfl
    | cons c lead =>
      obtain rfl : c = ch := by simpa [hsource] using hhead
      rcases hlead.head c rfl with hblank | rfl
      · exact absurd hblank (by simp [hch])
      · exact absurd rfl hslash
  obtain ⟨c, y, rfl, -⟩ := hreads.head
  obtain rfl : c = ch := by simpa [hsource] using hhead
  obtain ⟨htext, hspan⟩ | hopen := hreads.literal_inv
  · have hsize : source.utf8ByteSize = Text.byteLength (c :: y) := by
      have hstop : source.utf8ByteSize = 0 + Text.byteLength (c :: y) := congrArg Span.stop hspan
      rw [hstop, Nat.zero_add]
    obtain rfl : trail = [] := by
      rw [← Text.byteLength_toList, hsource, List.nil_append, Text.byteLength_append] at hsize
      exact Text.eq_nil_of_byteLength (by omega)
    rw [hsource]
    simpa using htext
  · exact absurd (Option.some.inj hopen) hparen

/-- A source between two quotes is a literal, whole, just if it is the text of one. -/
theorem parseExpression_between_iff {quote : String} {ch : Char} (hquote : quote.toList = [ch])
    (hch : Text.isBlank ch = false) (hslash : ch ≠ '/') (hparen : ch ≠ '(') (s : String) (l : Literal) :
    parseExpression (quote ++ s ++ quote) fileIndex file =
        .ok (.literal l ⟨fileIndex, 0, (quote ++ s ++ quote).utf8ByteSize⟩) ↔ LiteralText ([ch] ++ s.toList ++ [ch]) l := by
  have hsource : (quote ++ s ++ quote).toList = [ch] ++ s.toList ++ [ch] := by
    rw [String.toList_append, String.toList_append, hquote]
  have hhead : (quote ++ s ++ quote).toList.head? = some ch := by
    rw [hsource]
    rfl
  rw [← hsource]
  exact ⟨literalText_of_parse hhead hch hslash hparen, parseExpression_literal⟩

/-- A text in double quotes is a string literal, whole, just if it is a row of pieces, and then the chars they stand for
are its value; a text in single quotes is a char literal just if it is a single piece. -/
theorem parseExpression_quoted (fileIndex : Nat) (file : String) :
    (∀ s v : String, parseExpression ("\"" ++ s ++ "\"") fileIndex file =
        .ok (.literal (.string v) ⟨fileIndex, 0, ("\"" ++ s ++ "\"").utf8ByteSize⟩) ↔ Pieces '"' s.toList v.toList) ∧
      ∀ (s : String) (ch : Char), parseExpression ("'" ++ s ++ "'") fileIndex file =
        .ok (.literal (.char ch) ⟨fileIndex, 0, ("'" ++ s ++ "'").utf8ByteSize⟩) ↔ Piece '\'' s.toList (some '\'') ch := by
  constructor
  · intro s v
    rw [← literalText_string_iff]
    exact parseExpression_between_iff rfl (by decide) (by decide) (by decide) s _
  · intro s ch
    rw [← literalText_char_iff]
    exact parseExpression_between_iff rfl (by decide) (by decide) (by decide) s _

end

end PegFront.Cminor
