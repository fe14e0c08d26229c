import PegFront.Proofs.Cminor.Expressions
import PegFront.Proofs.Cminor.Trees
import PegFront.Proofs.Legible

/-!
# Expressions written out

`Expr.render` writes a tree as text: one space between tokens, every char between quotes as an escape, and
parentheses just around operands that bind too loosely for where they stand. The text reads back as the tree,
spans apart (`Expr.reads_render`), and so it parses.
-/

namespace PegFront.Cminor

/-! ## Digits -/

theorem digitValue_digitChar : ∀ d < 16, digitValue d.digitChar = d := by decide

theorem numeral_append (base : Nat) (x : List Char) (ch : Char) :
    numeral base (x ++ [ch]) = numeral base x * base + digitValue ch := by
  rw [numeral, List.foldl_append]
  rfl

/-- The digits of a number stand for it. -/
theorem numeral_toDigits (base : Nat) (hbase : 1 < base) (hle : base ≤ 16) (n : Nat) : numeral base (base.toDigits n) = n := by
  induction n using Nat.strongRecOn with
  | ind n ih =>
    by_cases hn : n < base
    · have hone := numeral_append base [] n.digitChar
      rw [digitValue_digitChar n (by omega)] at hone
      rw [Nat.toDigits_of_lt_base hn]
      exact hone.trans (by rw [numeral, List.foldl_nil, Nat.zero_mul, Nat.zero_add])
    · have hpos : 0 < n := by omega
      rw [Nat.toDigits_of_base_le hbase (by omega), numeral_append, ih (n / base) (Nat.div_lt_self hpos hbase),
        digitValue_digitChar _ (Nat.lt_of_lt_of_le (Nat.mod_lt n (by omega)) hle)]
      exact Nat.div_add_mod' n base

theorem scalar?_toNat (ch : Char) : scalar? ch.toNat = some ch := by
  have hvalid : ch.toNat < 0xD800 ∨ 0xDFFF < ch.toNat ∧ ch.toNat < 0x110000 := ch.valid
  rw [scalar?, if_pos, Char.ofNat_toNat]
  simp only [Bool.or_eq_true, Bool.and_eq_true, decide_eq_true_eq]
  omega

/-! ## Literals -/

/-- A char as an escape of hexadecimal digits. -/
def escaped (ch : Char) : List Char := '\\' :: 'x' :: Nat.toDigits 16 ch.toNat

theorem escape_escaped (ch : Char) {next : Option Char} (hnext : ∀ d ∈ next, Text.isHexDigit d = false) :
    Escape (escaped ch) next :=
  .hex (.inl rfl) ⟨Text.toDigits_ne_nil (by decide) _, Text.isHexDigit_hexDigits _⟩ hnext

/-- An escaped text goes on with a backslash, if at all. -/
theorem head_escaped {quote : Char} (hquote : Text.isHexDigit quote = false) (s : List Char) :
    ∀ ch ∈ (s.flatMap escaped ++ [quote]).head?, Text.isHexDigit ch = false := by
  intro ch hch
  cases s with
  | nil => exact Option.some.inj hch ▸ hquote
  | cons c s => exact Option.some.inj hch ▸ by decide

theorem quoted_escaped (s : List Char) : Quoted '"' (s.flatMap escaped) := by
  induction s with
  | nil => exact .nil
  | cons ch s ih => exact .escape (escape_escaped ch (head_escaped (by decide) s)) ih

theorem escape?_digits (ch : Char) {rest : List Char} (hrest : ∀ d ∈ rest.head?, Text.isHexDigit d = false) :
    escape? 'x' (Nat.toDigits 16 ch.toNat ++ rest) = some (ch, rest) := by
  have hdigits : ∀ d ∈ Nat.toDigits 16 ch.toNat, Text.isHexDigit d = true := Text.isHexDigit_hexDigits ch.toNat
  obtain ⟨htake, hdrop⟩ := takeWhile_run hdigits hrest
  have hnumeric : numericEscape? 16 (Nat.toDigits 16 ch.toNat) = some ch := by
    rw [numericEscape?, if_neg (by simp),
      numeral_toDigits 16 (by decide) (by decide), scalar?_toNat]
  rw [escape?, if_pos (by decide), htake, hdrop, hnumeric]
  rfl

theorem unescapeWith_escaped (s : List Char) : ∀ fuel, s.length ≤ fuel →
    unescapeWith fuel (s.flatMap escaped) = some s := by
  induction s with
  | nil => intro fuel _; cases fuel <;> rfl
  | cons ch s ih =>
    intro fuel hfuel
    obtain ⟨fuel, rfl⟩ := Nat.exists_eq_add_of_le' (Nat.le_trans (Nat.succ_le_succ (Nat.zero_le _)) hfuel)
    have hnext : ∀ d ∈ (s.flatMap escaped).head?, Text.isHexDigit d = false := by
      intro d hd
      cases s with
      | nil => cases hd
      | cons c s => exact Option.some.inj hd ▸ by decide
    rw [List.flatMap_cons, escaped, List.cons_append, List.cons_append, unescapeWith, if_pos rfl,
      escape?_digits ch hnext]
    simp only [ih fuel (Nat.le_of_succ_le_succ hfuel), Option.map_some]

theorem unescape?_escaped (s : List Char) : unescape? (s.flatMap escaped) = some s := by
  refine unescapeWith_escaped s _ ?_
  rw [List.length_flatMap]
  induction s with
  | nil => exact Nat.le_refl _
  | cons ch s ih => simp only [List.length_cons, List.map_cons, List.sum_cons, escaped] at ih ⊢; omega

namespace Literal

def render : Literal → List Char
  | .bool b => (if b then "true" else "false").toList
  | .int n => Nat.toDigits 10 n
  | .float x => (Literal.float x).display.toList
  | .char ch => ['\''] ++ escaped ch ++ ['\'']
  | .string s => ['"'] ++ s.toList.flatMap escaped ++ ['"']
  | .null => "null".toList

/-- Integers have 64 bits, and there are no floats. -/
def isWritable : Literal → Bool
  | .int n => n < wordCount64
  | .float _ => false
  | .bool _ | .char _ | .string _ | .null => true

theorem text_render {l : Literal} (h : l.isWritable = true) : LiteralText l.render l := by
  cases l with
  | bool b => cases b <;> constructor
  | int n =>
    have hn := numeral_toDigits 10 (by decide) (by decide) n
    have hdigits : Run .digit (Nat.toDigits 10 n) :=
      ⟨Text.toDigits_ne_nil (by decide) n, fun ch hch => Nat.isDigit_of_mem_toDigits (by decide) (by decide) hch⟩
    have htext := LiteralText.decimal hdigits (by rw [hn]; exact of_decide_eq_true h)
    rwa [hn] at htext
  | float x => cases h
  | char ch =>
    have hone := unescape?_escaped [ch]
    rw [List.flatMap_cons, List.flatMap_nil, List.append_nil] at hone
    exact .char (.inr (escape_escaped ch fun d hd => Option.some.inj hd ▸ by decide)) hone
  | string s =>
    have htext := LiteralText.string (quoted_escaped s.toList) (unescape?_escaped s.toList)
    rwa [String.ofList_toList] at htext
  | null => exact .null

end Literal

/-! ## Expressions -/

/-- Texts one after the other, with commas between them. -/
def listed : List (List Char) → List Char
  | [] => []
  | x :: xs => [' '] ++ x ++ xs.flatMap fun y => [' '] ++ [','] ++ [' '] ++ y

namespace Expr

/-- How tight the outermost node of a tree binds. -/
def level : Expr → Nat
  | .literal .. | .name .. | .this _ => 9
  | .member .. | .invoke .. | .index .. => 8
  | .unary .. => 7
  | .binary op .. => op.level

/-- The text of an operand, in parentheses if it binds looser than its place asks for. -/
def fitted (k : Nat) (e : Expr) (text : List Char) : List Char :=
  if e.level < k then ['('] ++ [' '] ++ text ++ [' '] ++ [')'] else text

mutual

/-- The text of a tree. -/
def render : Expr → List Char
  | .literal l _ => l.render
  | .name id _ => id.name.toList
  | .this _ => "this".toList
  | .unary op e _ => op.symbol.toList ++ [' '] ++ e.fitted 7 (render e)
  | .binary op left right _ =>
    left.fitted op.level (render left) ++ [' '] ++ op.symbol.toList ++ [' '] ++ right.fitted (op.level + 1) (render right)
  | .member target id _ => target.fitted 8 (render target) ++ [' '] ++ ['.'] ++ [' '] ++ id.name.toList
  | .invoke target arguments _ =>
    target.fitted 8 (render target) ++ [' '] ++ ['('] ++ listed (renderAll arguments) ++ [' '] ++ [')']
  | .index target i _ =>
    target.fitted 8 (render target) ++ [' '] ++ ['['] ++ [' '] ++ render i ++ [' '] ++ [']']

def renderAll : List Expr → List (List Char)
  | [] => []
  | e :: es => render e :: renderAll es

end

mutual

/-- The names are words that are no keywords, and the literals can be written. -/
def isWritable : Expr → Bool
  | .literal l _ => l.isWritable
  | .name id _ => isName id.name.toList
  | .this _ => true
  | .unary _ e _ => isWritable e
  | .binary _ left right _ => isWritable left && isWritable right
  | .member target id _ => isWritable target && isName id.name.toList
  | .invoke target arguments _ => isWritable target && allWritable arguments
  | .index target i _ => isWritable target && isWritable i

def allWritable : List Expr → Bool
  | [] => true
  | e :: es => isWritable e && allWritable es

end

/-- A name or `this`, with suffixes. -/
def isTarget : Expr → Bool
  | .name .. | .this _ => true
  | .member target .. | .invoke target .. | .index target .. => target.isTarget
  | .literal .. | .unary .. | .binary .. => false

/-- A tree without its spans. -/
abbrev bare (e : Expr) : Expr := e.mapSpans fun _ => default

theorem allWritable_eq (es : List Expr) : allWritable es = es.all isWritable := by
  induction es with
  | nil => rfl
  | cons e es ih => rw [allWritable, ih, List.all_cons]

theorem renderAll_eq (es : List Expr) : renderAll es = es.map render := by
  induction es with
  | nil => rfl
  | cons e es ih => rw [renderAll, ih, List.map_cons]

/-! ## Reading back -/

section
variable {f : Nat} {lv : Bool}

/-- A text reads back as a tree, wherever it stands. -/
def ReadsBack (f : Nat) (lv : Bool) (k : Nat) (x : List Char) (e : Expr) : Prop :=
  ∀ o, ∃ e', Reads f lv k o x e' ∧ e'.bare = e.bare

theorem ReadsBack.fitted {k : Nat} {e : Expr} (h : ReadsBack f lv e.level e.render e) (hk : k ≤ 9) :
    ReadsBack f lv k (e.fitted k e.render) e := by
  intro o
  rw [Expr.fitted]
  split
  · obtain ⟨e', hreads, hbare⟩ := h (o + Text.byteLength (['('] ++ [' ']))
    exact ⟨e', (Reads.paren gap_space rfl (hreads.loosen (Nat.zero_le _)) gap_space).loosen hk, hbare⟩
  · next hlevel =>
    obtain ⟨e', hreads, hbare⟩ := h o
    exact ⟨e', hreads.loosen (Nat.le_of_not_lt hlevel), hbare⟩

/-- Arguments after the first one, each behind a comma. -/
theorem exists_arguments (es : List Expr) (h : ∀ e ∈ es, ReadsBack f false 0 e.render e) : ∀ o,
    ∃ as : List Argument, Argument.Placed o as ∧ (∀ a ∈ as, Reads f false 0 a.start a.text a.value) ∧
      Argument.written as = (es.map render).flatMap (fun y => [' '] ++ [','] ++ [' '] ++ y) ∧
      as.map (·.value.bare) = es.map bare := by
  induction es with
  | nil => exact fun _ => ⟨[], trivial, fun _ h => absurd h List.not_mem_nil, rfl, rfl⟩
  | cons e es ih =>
    intro o
    obtain ⟨e', hreads, hbare⟩ := h e List.mem_cons_self (o + Text.byteLength ([' '] ++ [','] ++ [' ']))
    obtain ⟨as, hplaced, hall, hwritten, hvalues⟩ := ih (fun a ha => h a (List.mem_cons_of_mem _ ha))
      (o + Text.byteLength ([' '] ++ [','] ++ [' ']) + Text.byteLength e.render)
    refine ⟨⟨[' '], [' '], _, e.render, e'⟩ :: as, ⟨gap_space, gap_space, rfl, hplaced⟩, ?_, ?_, ?_⟩
    · intro a ha
      rcases List.mem_cons.1 ha with rfl | ha
      · exact hreads
      · exact hall a ha
    · rw [Argument.written, List.flatMap_cons, List.map_cons, List.flatMap_cons, ← hwritten]
      rfl
    · rw [List.map_cons, List.map_cons, hvalues, hbare]

/-- What is written reads back as it was, also where assignment targets are read if it is one. -/
theorem reads_render (e : Expr) : e.isWritable = true → ∀ lv, lv = false ∨ e.isTarget = true →
    ReadsBack f lv e.level e.render e := by
  induction e using Expr.induct with
  | literal l s =>
    intro hw lv hlv o
    obtain rfl : lv = false := hlv.resolve_right Bool.false_ne_true
    exact ⟨_, .literal (Literal.text_render hw), rfl⟩
  | name id s =>
    intro hw lv _ o
    exact ⟨_, .name hw, congrArg (Expr.name ⟨·, default⟩ default) String.ofList_toList⟩
  | this s => exact fun _ lv _ o => ⟨_, .this, rfl⟩
  | unary op e s ih =>
    intro hw lv hlv o
    obtain rfl : lv = false := hlv.resolve_right Bool.false_ne_true
    obtain ⟨e', hreads, hbare⟩ := (ih hw false (.inl rfl)).fitted (k := 7) (by decide)
      (o + Text.byteLength (op.symbol.toList ++ [' ']))
    exact ⟨_, .unary op gap_space rfl hreads, congrArg (Expr.unary op · default) hbare⟩
  | binary op left right s ihl ihr =>
    intro hw lv hlv o
    obtain ⟨hwl, hwr⟩ := Bool.and_eq_true_iff.1 hw
    obtain rfl : lv = false := hlv.resolve_right Bool.false_ne_true
    have hlevel := op.level_lt
    obtain ⟨l, hl, hlb⟩ := (ihl hwl false (.inl rfl)).fitted (k := op.level) (by omega) o
    obtain ⟨r, hr, hrb⟩ := (ihr hwr false (.inl rfl)).fitted (k := op.level + 1) (by omega)
      (o + Text.byteLength (left.fitted op.level left.render ++ [' '] ++ op.symbol.toList ++ [' ']))
    exact ⟨_, .binary op rfl hl gap_space gap_space (fun _ => by decide) rfl hr,
      congrArg₂ (Expr.binary op · · default) hlb hrb⟩
  | member target id s ih =>
    intro hw lv hlv o
    obtain ⟨hwt, hname⟩ := Bool.and_eq_true_iff.1 hw
    obtain ⟨t, ht, htb⟩ := (ih hwt lv hlv).fitted (k := 8) (by decide) o
    exact ⟨_, .member ht gap_space gap_space hname rfl,
      congrArg₂ (Expr.member · ⟨·, default⟩ default) htb String.ofList_toList⟩
  | invoke target arguments s iht iha =>
    intro hw lv hlv o
    obtain ⟨hwt, hwa⟩ := Bool.and_eq_true_iff.1 hw
    rw [allWritable_eq, List.all_eq_true] at hwa
    obtain ⟨t, ht, htb⟩ := (iht hwt lv hlv).fitted (k := 8) (by decide) o
    have hargs : ∀ a ∈ arguments, ReadsBack f false 0 a.render a := by
      intro a ha o
      obtain ⟨a', hreads, hbare⟩ := iha a ha (hwa a ha) false (.inl rfl) o
      exact ⟨a', hreads.loosen (Nat.zero_le _), hbare⟩
    rw [render, renderAll_eq]
    cases arguments with
    | nil =>
      rw [List.map_nil, listed, List.append_nil]
      exact ⟨_, .call ht gap_space gap_space, congrArg (Expr.invoke · [] default) htb⟩
    | cons a as =>
      obtain ⟨a', ha, hab⟩ := hargs a List.mem_cons_self
        (o + Text.byteLength (target.fitted 8 target.render ++ [' '] ++ ['('] ++ [' ']))
      obtain ⟨bs, hplaced, hbs, hwritten, hvalues⟩ := exists_arguments as
        (fun b hb => hargs b (List.mem_cons_of_mem _ hb)) (o +
          Text.byteLength (target.fitted 8 target.render ++ [' '] ++ ['('] ++ [' ']) + Text.byteLength a.render)
      have hreads := Reads.invoke ht gap_space gap_space rfl ha hplaced hbs gap_space
      rw [hwritten] at hreads
      rw [List.map_cons, listed, ← List.append_assoc, ← List.append_assoc]
      refine ⟨_, hreads, congrArg₂ (Expr.invoke · · default) htb (congrArg₂ List.cons hab ?_)⟩
      rw [mapSpansAll_eq, mapSpansAll_eq, List.map_map]
      exact hvalues
  | index target i s iht ihi =>
    intro hw lv hlv o
    obtain ⟨hwt, hwi⟩ := Bool.and_eq_true_iff.1 hw
    obtain ⟨t, ht, htb⟩ := (iht hwt lv hlv).fitted (k := 8) (by decide) o
    obtain ⟨i', hi, hib⟩ := ihi hwi false (.inl rfl)
      (o + Text.byteLength (target.fitted 8 target.render ++ [' '] ++ ['['] ++ [' ']))
    exact ⟨_, .index ht gap_space gap_space rfl (hi.loosen (Nat.zero_le _)) gap_space,
      congrArg₂ (Expr.index · · default) htb hib⟩

end

end Expr

/-- The text of a tree parses as that tree. -/
theorem parseExpression_render (e : Expr) (h : e.isWritable = true) (fileIndex : Nat) (file : String) :
    ∃ e', parseExpression (String.ofList e.render) fileIndex file = .ok e' ∧ e'.bare = e.bare := by
  obtain ⟨e', hreads, hbare⟩ := Expr.reads_render e h false (.inl rfl) 0
  refine ⟨e', parseExpression_eq_ok_iff.2 ⟨[], e.render, [], ?_, .nil, hreads.loosen (Nat.zero_le _), rfl⟩, hbare⟩
  rw [String.toList_ofList, List.nil_append, List.append_nil]

theorem parseExpression_render_sample :
    ∃ e', parseExpression "( a - ( b - 1 ) ) * - f . g ( \"\\x22\" , ! this [ '\\x41' ] )" 0 "" = .ok e' ∧
      e'.bare = .binary .mul
        (.binary .sub (.name ⟨"a", default⟩ default)
          (.binary .sub (.name ⟨"b", default⟩ default) (.literal (.int 1) default) default) default)
        (.unary .neg (.invoke (.member (.name ⟨"f", default⟩ default) ⟨"g", default⟩ default)
          [.literal (.string "\"") default,
            .unary .not (.index (.this default) (.literal (.char 'A') default) default) default] default) default)
        default :=
  parseExpression_render (.binary .mul
    (.binary .sub (.name ⟨"a", default⟩ default)
      (.binary .sub (.name ⟨"b", default⟩ default) (.literal (.int 1) default) default) default)
    (.unary .neg (.invoke (.member (.name ⟨"f", default⟩ default) ⟨"g", default⟩ default)
      [.literal (.string "\"") default,
        .unary .not (.index (.this default) (.literal (.char 'A') default) default) default] default) default)
    default) (by decide) 0 ""

end PegFront.Cminor
