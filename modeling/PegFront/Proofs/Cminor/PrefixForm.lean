import Mathlib.Data.Bool.AllAny
import PegFront.Proofs.Cminor.Rendering
import PegFront.Proofs.Cminor.Spans
import PegFront.Proofs.Legible

/-!
# Expressions in prefix form

`Expr.display` puts an operator and its operands in parentheses, and a suffix behind its target without any. So a tree
is a head with a row of suffixes. The first char of a head tells its kind and the first char of a suffix tells whether
there is one; what is inside parentheses and brackets is again the text of a tree. Hence the text is that of no other
tree, spans apart, as long as names are no keywords and there are no floats.
-/

namespace PegFront.Cminor

/-- A member, an invocation or an index, without what it is of. -/
inductive Suffix where
  | member (name : String)
  | invoke (arguments : List Expr)
  | index (i : Expr)

namespace Expr

def text (e : Expr) : List Char := e.display.toList

theorem displayAll_eq (es : List Expr) : displayAll es = es.map display := by
  induction es with
  | nil => rfl
  | cons e es ih => rw [displayAll, ih, List.map_cons]

end Expr

/-! ## Heads and suffixes -/

namespace Suffix

def text : Suffix → List Char
  | .member name => '.' :: name.toList
  | .invoke arguments => '(' :: ((", ".intercalate (arguments.map Expr.display)).toList ++ [')'])
  | .index i => '[' :: (i.text ++ [']'])

def bare : Suffix → Suffix
  | .member name => .member name
  | .invoke arguments => .invoke (arguments.map Expr.bare)
  | .index i => .index i.bare

def attach (e : Expr) : Suffix → Expr
  | .member name => .member e ⟨name, default⟩ default
  | .invoke arguments => .invoke e arguments default
  | .index i => .index e i default

/-- The trees in a suffix. -/
def inner : Suffix → List Expr
  | .member _ => []
  | .invoke arguments => arguments
  | .index i => [i]

def isWritable : Suffix → Bool
  | .member name => isName name.toList
  | .invoke arguments => arguments.all Expr.isWritable
  | .index i => i.isWritable

theorem isWritable_inner {x : Suffix} (hw : x.isWritable = true) : ∀ a ∈ x.inner, a.isWritable = true := by
  cases x with
  | member => exact nofun
  | invoke => exact List.all_eq_true.1 hw
  | index => exact List.forall_mem_singleton.2 hw

end Suffix

namespace Expr

/-- A tree without its suffixes. -/
def head : Expr → Expr
  | .member target _ _ | .invoke target _ _ | .index target _ _ => head target
  | e => e

def suffixes : Expr → List Suffix
  | .member target id _ => suffixes target ++ [.member id.name]
  | .invoke target arguments _ => suffixes target ++ [.invoke arguments]
  | .index target i _ => suffixes target ++ [.index i]
  | _ => []

def operands : Expr → List Expr
  | .unary _ operand _ => [operand]
  | .binary _ left right _ => [left, right]
  | _ => []

/-- The trees that a tree is put together from, each inside some brackets. -/
def inner (e : Expr) : List Expr := e.head.operands ++ e.suffixes.flatMap Suffix.inner

theorem suffixes_head (e : Expr) : e.head.suffixes = [] := by
  fun_induction head e <;> simp_all [suffixes]

theorem text_eq (e : Expr) : e.text = e.head.text ++ e.suffixes.flatMap Suffix.text := by
  fun_induction head e <;> simp_all [suffixes, text, display, displayAll_eq, Suffix.text]

theorem bare_eq (e : Expr) : e.bare = (e.suffixes.map Suffix.bare).foldl Suffix.attach e.head.bare := by
  fun_induction head e <;>
    simp_all [suffixes, bare, mapSpans, mapSpansAll_eq, Suffix.bare, Suffix.attach, Identifier.mapSpan]

theorem isWritable_eq (e : Expr) : e.isWritable = (e.head.isWritable && e.suffixes.all Suffix.isWritable) := by
  fun_induction head e <;> simp_all [suffixes, isWritable, allWritable_eq, Suffix.isWritable, Bool.and_assoc]

/-- Induction in which only the trees inside brackets count. -/
theorem induct_inner {P : Expr → Prop} (h : ∀ e, (∀ a ∈ e.inner, P a) → P e) (e : Expr) : P e := by
  have hsuffix : ∀ {e target : Expr} {x : Suffix}, e.inner = target.inner ++ x.inner → (∀ a ∈ target.inner, P a) →
      (∀ a ∈ x.inner, P a) → ∀ a ∈ e.inner, P a := by
    intro e target x he htarget hx
    rw [he]
    exact List.forall_mem_append.2 ⟨htarget, hx⟩
  have hall : ∀ e : Expr, ∀ a ∈ e.inner, P a := by
    intro e
    induction e using Expr.induct with
    | literal | name | this => exact fun _ ha => absurd ha List.not_mem_nil
    | unary op e s ih => exact List.forall_mem_singleton.2 (h e ih)
    | binary op left right s ihl ihr =>
      exact List.forall_mem_cons.2 ⟨h left ihl, List.forall_mem_singleton.2 (h right ihr)⟩
    | member target id s ih =>
      exact hsuffix (x := .member id.name) (by simp [inner, head, suffixes]) ih nofun
    | invoke target arguments s iht iha =>
      exact hsuffix (x := .invoke arguments) (by simp [inner, head, suffixes]) iht fun a ha => h a (iha a ha)
    | index target i s iht ihi =>
      exact hsuffix (x := .index i) (by simp [inner, head, suffixes]) iht (List.forall_mem_singleton.2 (h i ihi))
  exact h e (hall e)

/-! ## How heads begin -/

/-- The bracket or quote a head begins with, if it is no word. -/
def bracket? : Expr → Option Char
  | .literal (.char _) _ => some '\''
  | .literal (.string _) _ => some '"'
  | .unary .. | .binary .. => some '('
  | _ => none

/-- The tree of a word. -/
def ofWord (x : List Char) : Expr :=
  if x.head?.any Char.isDigit then .literal (.int (numeral 10 x)) default
  else if x = "true".toList then .literal (.bool true) default
  else if x = "false".toList then .literal (.bool false) default
  else if x = "null".toList then .literal .null default
  else if x = "this".toList then .this default
  else .name ⟨String.ofList x, default⟩ default

section
variable {e : Expr}

theorem isWordChar_text (hw : e.isWritable = true) (hs : e.suffixes = []) (hb : e.bracket? = none) :
    e.text ≠ [] ∧ ∀ c ∈ e.text, Text.isWordChar c = true := by
  have hword : ∀ x : List Char, isWord x = true → x ≠ [] ∧ ∀ c ∈ x, Text.isWordChar c = true := by
    intro x hx
    refine ⟨?_, all_of_isWord hx⟩
    rintro rfl
    cases hx
  cases e with
  | literal l s =>
    cases l with
    | bool b =>
      cases b
      · exact hword "false".toList (by decide)
      · exact hword "true".toList (by decide)
    | int n =>
      have htext : (Expr.literal (.int n) s).text = Nat.toDigits 10 n := Nat.toList_repr
      rw [htext]
      exact ⟨Text.toDigits_ne_nil (by decide) n, fun c hc =>
        isWordChar_of_digit (Nat.isDigit_of_mem_toDigits (by decide) (by decide) hc)⟩
    | float x => cases hw
    | null => exact hword "null".toList (by decide)
    | char c | string x => cases hb
  | name id s => exact hword _ (isName_iff.1 hw).1
  | this s => exact hword "this".toList (by decide)
  | unary | binary => cases hb
  | member target id s | invoke target arguments s | index target i s =>
    exact absurd hs (List.append_ne_nil_of_right_ne_nil _ (List.cons_ne_nil _ _))

theorem ofWord_text (hw : e.isWritable = true) (hs : e.suffixes = []) (hb : e.bracket? = none) :
    ofWord e.text = e.bare := by
  cases e with
  | literal l s =>
    cases l with
    | bool b =>
      cases b
      · show ofWord "false".toList = _
        rw [ofWord, if_neg (by decide), if_neg (by decide), if_pos rfl]
        rfl
      · show ofWord "true".toList = _
        rw [ofWord, if_neg (by decide), if_pos rfl]
        rfl
    | int n =>
      have htext : (Expr.literal (.int n) s).text = Nat.toDigits 10 n := Nat.toList_repr
      have hne : Nat.toDigits 10 n ≠ [] := Text.toDigits_ne_nil (by decide) n
      obtain ⟨d, x, hx⟩ := List.exists_cons_of_ne_nil hne
      have hd : d.isDigit = true :=
        Nat.isDigit_of_mem_toDigits (b := 10) (n := n) (by decide) (by decide) (hx ▸ List.mem_cons_self)
      rw [ofWord, htext, if_pos (by rw [hx]; exact hd), numeral_toDigits 10 (by decide) (by decide)]
      rfl
    | float x => cases hw
    | null =>
      show ofWord "null".toList = _
      rw [ofWord, if_neg (by decide), if_neg (by decide), if_neg (by decide), if_pos rfl]
      rfl
    | char c | string x => cases hb
  | name id s =>
    obtain ⟨hword, hkey⟩ := isName_iff.1 hw
    have htext : (Expr.name id s).text = id.name.toList := rfl
    have hne : ∀ word ∈ keywords, id.name.toList ≠ word.toList := by
      rintro word hmem heq
      rw [heq, String.ofList_toList] at hkey
      exact hkey hmem
    have hdigit : id.name.toList.head?.any Char.isDigit = false := by
      obtain ⟨c, x, hx, hc⟩ := head_of_isName hw
      rw [hx]
      exact Bool.eq_false_iff.2 fun hd => by rw [isWordStart_of_digit hd] at hc; cases hc
    rw [ofWord, htext, if_neg (by rw [hdigit]; exact Bool.false_ne_true), if_neg (hne "true" (by decide)),
      if_neg (hne "false" (by decide)), if_neg (hne "null" (by decide)), if_neg (hne "this" (by decide)),
      String.ofList_toList]
    rfl
  | this s =>
    show ofWord "this".toList = _
    rw [ofWord, if_neg (by decide), if_neg (by decide), if_neg (by decide), if_neg (by decide), if_pos rfl]
    rfl
  | unary | binary => cases hb
  | member target id s | invoke target arguments s | index target i s =>
    exact absurd hs (List.append_ne_nil_of_right_ne_nil _ (List.cons_ne_nil _ _))

theorem head?_of_bracket {c : Char} (hb : e.bracket? = some c) :
    e.text.head? = some c ∧ Text.isWordChar c = false := by
  have hchar : c = '\'' ∨ c = '"' ∨ c = '(' → Text.isWordChar c = false := by rintro (rfl | rfl | rfl) <;> decide
  cases e with
  | literal l s =>
    cases l with
    | char | string =>
      obtain rfl := Option.some.inj hb
      exact ⟨by simp [text, display, Literal.display, Text.quoteChar, Text.quote, Text.quoteWith], hchar (by simp)⟩
    | _ => cases hb
  | unary | binary =>
    obtain rfl := Option.some.inj hb
    exact ⟨by simp [text, display], hchar (by simp)⟩
  | _ => cases hb

/-- The first char tells how a head begins. -/
theorem bracket?_eq (hw : e.isWritable = true) (hs : e.suffixes = []) (s : List Char) :
    (e.text ++ s).head?.filter (fun c => !Text.isWordChar c) = e.bracket? := by
  cases hb : e.bracket? with
  | none =>
    obtain ⟨hne, hall⟩ := isWordChar_text hw hs hb
    obtain ⟨c, x, hx⟩ := List.exists_cons_of_ne_nil hne
    have hc := hall c (hx ▸ List.mem_cons_self)
    rw [hx, List.cons_append, List.head?_cons, Option.filter_some, hc]
    rfl
  | some c =>
    obtain ⟨hhead, hc⟩ := head?_of_bracket hb
    rw [List.head?_append, hhead, Option.some_or, Option.filter_some, hc]
    rfl

end

/-! ## Reading a head off -/

/-- What may stand behind a tree. -/
def Closed (s : List Char) : Prop := ∀ c ∈ s.head?, c ∈ [' ', ',', ')', ']']

/-- What may stand behind a head or a suffix. -/
def Continued (s : List Char) : Prop := ∀ c ∈ s.head?, c ∈ [' ', ',', ')', ']', '.', '(', '[']

theorem Closed.continued {s : List Char} (h : Closed s) : Continued s := fun c hc =>
  List.mem_append_left ['.', '(', '['] (h c hc)

theorem closed_of_head {c : Char} (hc : c ∈ [' ', ',', ')', ']']) {s : List Char} (hs : s.head? = some c) :
    Closed s := by
  intro d hd
  rw [hs] at hd
  exact Option.some.inj hd ▸ hc

theorem Continued.noWordChar {s : List Char} (h : Continued s) : ∀ c ∈ s.head?, Text.isWordChar c = false := by
  have hall : ∀ c ∈ [' ', ',', ')', ']', '.', '(', '['], Text.isWordChar c = false :=
    List.all_iff_forall_prop.1 (by decide)
  exact fun c hc => hall c (h c hc)

/-- The text of a tree is that of no other tree, spans apart. -/
abbrev Clear (e : Expr) : Prop := Legible text (fun e' => e'.isWritable = true) Closed bare e

/-- The operator of a tree as it is written. -/
def symbol? : Expr → Option String
  | .unary op _ _ => some op.symbol
  | .binary op _ _ _ => some op.symbol
  | _ => none

section
variable {e e' : Expr} {s t : List Char}

theorem text_of_symbol {symbol : String} (h : e.symbol? = some symbol) :
    e.text = '(' :: (symbol.toList ++ (e.operands.flatMap (fun a => ' ' :: a.text) ++ [')'])) := by
  cases e with
  | unary | binary =>
    obtain rfl := Option.some.inj h
    simp [text, display, operands]
  | _ => cases h

theorem symbol_no_space {symbol : String} (h : e.symbol? = some symbol) : ∀ c ∈ symbol.toList, (c != ' ') = true := by
  cases e with
  | unary op =>
    obtain rfl := Option.some.inj h
    refine List.all_eq_true.1 ?_
    cases op <;> rfl
  | binary op =>
    obtain rfl := Option.some.inj h
    refine List.all_eq_true.1 ?_
    cases op <;> rfl
  | _ => cases h

/-- Trees with the same operator have the same shape, since the number of operands tells the rest. -/
theorem bare_eq_of_operands {symbol : String} (h : e.symbol? = some symbol) (h' : e'.symbol? = some symbol)
    (hoperands : e.operands.map bare = e'.operands.map bare) : e.bare = e'.bare := by
  cases e with
  | unary op a =>
    obtain rfl := Option.some.inj h
    cases e' with
    | unary op' a' =>
      have hop : op' = op := Option.some.inj (by
        rw [← op'.ofSymbol?_symbol, ← op.ofSymbol?_symbol, Option.some.inj h'])
      obtain ⟨ha, -⟩ := List.cons.inj hoperands
      simp only [bare, mapSpans, hop, ha]
    | binary => cases congrArg List.length hoperands
    | _ => cases h'
  | binary op a b =>
    obtain rfl := Option.some.inj h
    cases e' with
    | binary op' a' b' =>
      have hop : op' = op := Option.some.inj (by
        rw [← op'.ofSymbol?_symbol, ← op.ofSymbol?_symbol, Option.some.inj h'])
      obtain ⟨ha, hb⟩ := List.cons.inj hoperands
      obtain ⟨hb, -⟩ := List.cons.inj hb
      simp only [bare, mapSpans, hop, ha, hb]
    | unary => cases congrArg List.length hoperands
    | _ => cases h'
  | _ => cases h

theorem isWritable_operands (hw : e.isWritable = true) : ∀ a ∈ e.operands, a.isWritable = true := by
  cases e with
  | unary op a => exact List.forall_mem_singleton.2 hw
  | binary op a b =>
    obtain ⟨ha, hb⟩ := Bool.and_eq_true_iff.1 hw
    exact List.forall_mem_cons.2 ⟨ha, List.forall_mem_singleton.2 hb⟩
  | _ => exact fun _ ha => absurd ha List.not_mem_nil

end

section
variable {e e' : Expr} {s t : List Char}

/-- Operands are read off up to the closing parenthesis. -/
theorem operands_unique (hw : e.isWritable = true) (hclear : ∀ a ∈ e.operands, a.Clear) (hw' : e'.isWritable = true)
    (h : e.operands.flatMap (fun a => ' ' :: a.text) ++ ')' :: s =
      e'.operands.flatMap (fun a => ' ' :: a.text) ++ ')' :: t) :
    e.operands.map bare = e'.operands.map bare ∧ s = t := by
  have hitems : Legible (List.flatMap fun a : Expr => ' ' :: a.text) (fun as => ∀ a ∈ as, a.isWritable = true)
      (fun u => u.head? = some ')') (List.map bare) e.operands := by
    refine .flatMap (fun u hu => closed_of_head (by decide) hu) (fun a u _ => closed_of_head (by decide) rfl) ?_
      (isWritable_operands hw) ?_
    · exact fun a u _ hu => absurd (Option.some.inj hu) (by decide)
    · exact fun a ha b u v hb hu hv huv => hclear a ha b u v hb hu hv (List.cons.inj huv).2
  obtain ⟨hviews, hrest⟩ := hitems _ _ _ (isWritable_operands hw') rfl rfl h
  exact ⟨hviews, (List.cons.inj hrest).2⟩

theorem symbol_of_bracket (h : e.bracket? = some '(') : ∃ symbol, e.symbol? = some symbol := by
  cases e with
  | literal l => cases l <;> exact absurd h (by simp [bracket?])
  | unary | binary => exact ⟨_, rfl⟩
  | _ => cases h

theorem char_of_bracket (h : e.bracket? = some '\'') : ∃ c span, e = .literal (.char c) span := by
  cases e with
  | literal l =>
    cases l with
    | char c => exact ⟨c, _, rfl⟩
    | _ => exact absurd h (by simp [bracket?])
  | _ => exact absurd h (by simp [bracket?])

theorem string_of_bracket (h : e.bracket? = some '"') : ∃ x span, e = .literal (.string x) span := by
  cases e with
  | literal l =>
    cases l with
    | string x => exact ⟨x, _, rfl⟩
    | _ => exact absurd h (by simp [bracket?])
  | _ => exact absurd h (by simp [bracket?])

/-- An operation is read off up to its closing parenthesis. -/
theorem operation_unique (hw : e.isWritable = true) (hclear : ∀ a ∈ e.operands, a.Clear) (hw' : e'.isWritable = true)
    (hb : e.bracket? = some '(') (hb' : e'.bracket? = some '(') (h : e.text ++ s = e'.text ++ t) :
    e.bare = e'.bare ∧ s = t := by
  obtain ⟨x, hx⟩ := symbol_of_bracket hb
  obtain ⟨y, hy⟩ := symbol_of_bracket hb'
  simp only [text_of_symbol hx, text_of_symbol hy, List.cons_append, List.append_assoc, List.nil_append] at h
  have hspace : ∀ {a : Expr} {z : String}, a.symbol? = some z → ∀ u,
      ∀ c ∈ (a.operands.flatMap (fun a => ' ' :: a.text) ++ ')' :: u).head?, (c != ' ') = false := by
    intro a z ha u c hc
    cases a with
    | unary | binary => exact Option.some.inj hc ▸ by decide
    | _ => cases ha
  obtain ⟨hsymbol, hrest⟩ := run_unique (symbol_no_space hx) (symbol_no_space hy) (hspace hx s) (hspace hy t)
    (List.cons.inj h).2
  obtain ⟨hoperands, hst⟩ := operands_unique hw hclear hw' hrest
  rw [String.toList_inj] at hsymbol
  exact ⟨bare_eq_of_operands hx (hsymbol ▸ hy) hoperands, hst⟩

/-- A head is read off what follows it. -/
theorem legible_head (hw : e.isWritable = true) (hs : e.suffixes = []) (hclear : ∀ a ∈ e.operands, a.Clear) :
    Legible text (fun e' => e'.isWritable = true ∧ e'.suffixes = []) Continued bare e := by
  rintro e' s t ⟨hw', hs'⟩ hc hc' h
  have hbracket : e.bracket? = e'.bracket? := by rw [← bracket?_eq hw hs s, h, bracket?_eq hw' hs']
  cases hb : e.bracket? with
  | none =>
    have hb' := hbracket.symm.trans hb
    obtain ⟨htext, hrest⟩ := run_unique (isWordChar_text hw hs hb).2 (isWordChar_text hw' hs' hb').2
      hc.noWordChar hc'.noWordChar h
    exact ⟨by rw [← ofWord_text hw hs hb, htext, ofWord_text hw' hs' hb'], hrest⟩
  | some b =>
    have hb' := hbracket.symm.trans hb
    cases e with
    | literal l =>
      cases l with
      | char ch =>
        obtain rfl := Option.some.inj hb
        obtain ⟨ch', span, rfl⟩ := char_of_bracket hb'
        obtain ⟨hch, hrest⟩ := Text.quoteWith_unique (by decide) (by decide) rfl h
        exact ⟨congrArg (Expr.literal · default) (congrArg Literal.char (List.cons.inj hch).1), hrest⟩
      | string x =>
        obtain rfl := Option.some.inj hb
        obtain ⟨x', span, rfl⟩ := string_of_bracket hb'
        obtain ⟨hx, hrest⟩ := Text.quoteWith_unique (by decide) (by decide) rfl h
        exact ⟨congrArg (Expr.literal · default) (congrArg Literal.string (String.toList_inj.1 hx)), hrest⟩
      | _ => cases hb
    | unary | binary =>
      obtain rfl := Option.some.inj hb
      exact operation_unique hw hclear hw' hb hb' h
    | _ => cases hb

/-! ## Reading a tree off -/

theorem isWritable_head (hw : e.isWritable = true) :
    e.head.isWritable = true ∧ ∀ x ∈ e.suffixes, x.isWritable = true := by
  rwa [isWritable_eq, Bool.and_eq_true, List.all_eq_true] at hw

/-- No tree begins with a closing parenthesis. -/
theorem head?_text_ne (hw : e.isWritable = true) (s : List Char) : (e.text ++ s).head? ≠ some ')' := by
  intro h
  have hbracket := bracket?_eq (isWritable_head hw).1 (suffixes_head e) (e.suffixes.flatMap Suffix.text ++ s)
  rw [← List.append_assoc, ← text_eq, h, Option.filter_some, if_pos (by decide)] at hbracket
  generalize e.head = e' at hbracket
  cases e' with
  | literal l => cases l <;> exact absurd hbracket (by simp [bracket?])
  | _ => exact absurd hbracket (by simp [bracket?])

end

end Expr

open Cminor.Expr in
/-- A suffix is read off what follows it. -/
theorem Suffix.legible {x : Suffix} (hw : x.isWritable = true) (hclear : ∀ a ∈ x.inner, a.Clear) :
    Legible text (fun y => y.isWritable = true) Continued bare x := by
  intro y s t hw' hs ht h
  cases x with
  | member name =>
    cases y with
    | member name' =>
      obtain ⟨hname, hrest⟩ := run_unique (all_of_isWord (isName_iff.1 hw).1) (all_of_isWord (isName_iff.1 hw').1)
        hs.noWordChar ht.noWordChar (List.cons.inj h).2
      exact ⟨congrArg Suffix.member (String.toList_inj.1 hname), hrest⟩
    | invoke | index => exact absurd (List.cons.inj h).1 (by decide)
  | invoke arguments =>
    cases y with
    | invoke arguments' =>
      have hitems : Legible (fun as : List Expr => (", ".intercalate (as.map Expr.display)).toList)
          (fun as => ∀ a ∈ as, a.isWritable = true) (fun u => u.head? = some ')') (List.map Expr.bare) arguments := by
        refine .intercalate (fun u hu => closed_of_head (by decide) hu) (fun u => closed_of_head (by decide) rfl) ?_
          (fun a u ha => head?_text_ne ha u) (List.all_eq_true.1 hw) hclear
        exact fun u hu => absurd (Option.some.inj hu) (by decide)
      simp only [text, List.cons_append, List.append_assoc, List.nil_append] at h
      obtain ⟨hviews, hrest⟩ := hitems _ _ _ (List.all_eq_true.1 hw') rfl rfl (List.cons.inj h).2
      exact ⟨congrArg Suffix.invoke hviews, (List.cons.inj hrest).2⟩
    | member | index => exact absurd (List.cons.inj h).1 (by decide)
  | index i =>
    cases y with
    | index i' =>
      simp only [text, List.cons_append, List.append_assoc, List.nil_append] at h
      obtain ⟨hi, hrest⟩ := hclear i List.mem_cons_self i' _ _ hw' (closed_of_head (by decide) rfl)
        (closed_of_head (by decide) rfl) (List.cons.inj h).2
      exact ⟨congrArg Suffix.index hi, (List.cons.inj hrest).2⟩
    | member | invoke => exact absurd (List.cons.inj h).1 (by decide)

namespace Expr

/-- Every tree of names and literals other than floats is read off its text. -/
theorem clear (e : Expr) : e.isWritable = true → e.Clear := by
  induction e using induct_inner with
  | h e ih =>
    intro hw e' s t hw' hs ht h
    obtain ⟨hhead, hsuffixes⟩ := isWritable_head hw
    obtain ⟨hhead', hsuffixes'⟩ := isWritable_head hw'
    have hlast : ∀ u, Closed u → Continued u := fun _ hu => hu.continued
    have hnext : ∀ x u, Suffix.isWritable x = true → Continued (x.text ++ u) := by
      intro x u _ c hc
      cases x <;> exact Option.some.inj hc ▸ by decide
    have hstop : ∀ x u, Suffix.isWritable x = true → ¬ Closed (x.text ++ u) := by
      intro x u _ hclosed
      cases x <;> exact absurd (hclosed _ rfl) (by decide)
    have hoperands : ∀ a ∈ e.head.operands, a.Clear := fun a ha =>
      ih a (List.mem_append_left _ ha) (isWritable_operands hhead a ha)
    have hinner : ∀ x ∈ e.suffixes, Legible Suffix.text (fun y => y.isWritable = true) Continued Suffix.bare x := by
      intro x hx
      refine Suffix.legible (hsuffixes x hx) fun a ha => ih a ?_ ?_
      · exact List.mem_append_right _ (List.mem_flatMap.2 ⟨x, hx, ha⟩)
      · exact Suffix.isWritable_inner (hsuffixes x hx) a ha
    have hrow : ∀ {xs : List Suffix} {u}, (∀ x ∈ xs, x.isWritable = true) → Closed u →
        Continued (xs.flatMap Suffix.text ++ u) := fun hxs hu => (between_flatMap hlast hnext hxs hu :)
    have hall := Legible.flatMap hlast hnext hstop hsuffixes hinner
    rw [text_eq, text_eq e', List.append_assoc, List.append_assoc] at h
    obtain ⟨hbare, hrest⟩ := legible_head hhead (suffixes_head e) hoperands e'.head _ _ ⟨hhead', suffixes_head e'⟩
      (hrow hsuffixes hs) (hrow hsuffixes' ht) h
    obtain ⟨hbares, hst⟩ := hall _ s t hsuffixes' hs ht hrest
    exact ⟨by rw [bare_eq e, bare_eq e', hbare, hbares], hst⟩

end Expr

/-! ## Trees of a parse -/

def Expr.isFloat : Expr → Bool
  | .literal (.float _) _ => true
  | _ => false

/-- What is read is made of names and literals, so without floats it can be read off its prefix form. -/
theorem Reads.isWritable {f k o : Nat} {lv : Bool} {x : List Char} {e : Expr} (h : Reads f lv k o x e)
    (hfloat : ∀ n ∈ e.nodes, n.isFloat = false) : e.isWritable = true := by
  induction h with
  | literal h =>
    have hliteral := hfloat _ List.mem_cons_self
    cases h with
    | float => cases hliteral
    | hex _ _ hn | decimal _ hn => exact decide_eq_true hn
    | _ => rfl
  | this => rfl
  | @name _ _ x h =>
    show isName (String.ofList x).toList = true
    rwa [String.toList_ofList]
  | paren _ _ _ _ ih => exact ih hfloat
  | @member _ _ _ _ _ _ y _ _ _ _ hy _ ih =>
    have hname : isName (String.ofList y).toList = true := by rwa [String.toList_ofList]
    exact Bool.and_eq_true_iff.2 ⟨ih fun n hn => hfloat n (List.mem_cons_of_mem _ hn), hname⟩
  | call _ _ _ ih =>
    exact Bool.and_eq_true_iff.2 ⟨ih fun n hn => hfloat n (by simp [Expr.nodes, hn]), rfl⟩
  | @invoke _ _ _ _ _ _ _ as _ _ a _ _ _ _ _ _ _ _ ih iha ihas =>
    have htarget := ih fun n hn => hfloat n (by simp [Expr.nodes, hn])
    have hfirst := iha fun n hn => hfloat n (by simp [Expr.nodes, Expr.nodesAll, hn])
    have hrest : ∀ b ∈ as, b.value.isWritable = true := fun b hb => ihas b hb fun n hn => hfloat n (by
      simp only [Expr.nodes, Expr.nodesAll, Expr.mem_nodesAll, List.mem_cons, List.mem_append, List.mem_map]
      exact .inr (.inr (.inr ⟨_, ⟨b, hb, rfl⟩, hn⟩)))
    refine Bool.and_eq_true_iff.2 ⟨htarget, ?_⟩
    rw [Expr.allWritable_eq, List.all_cons, hfirst, List.all_map]
    exact List.all_eq_true.2 hrest
  | index _ _ _ _ _ _ ih ihy =>
    have htarget := ih fun n hn => hfloat n (by simp [Expr.nodes, hn])
    exact Bool.and_eq_true_iff.2 ⟨htarget, ihy fun n hn => hfloat n (by simp [Expr.nodes, hn])⟩
  | unary _ _ _ _ ih => exact ih fun n hn => hfloat n (List.mem_cons_of_mem _ hn)
  | binary _ _ _ _ _ _ _ _ ih ih' =>
    have hleft := ih fun n hn => hfloat n (by simp [Expr.ofOperands, Expr.nodes, hn])
    exact Bool.and_eq_true_iff.2 ⟨hleft, ih' fun n hn => hfloat n (by simp [Expr.ofOperands, Expr.nodes, hn])⟩
  | lift _ _ ih => exact ih hfloat

/-- Two sources whose expressions are written alike have the same tree, spans apart, if it holds no floats. -/
theorem bare_eq_of_display {source source' file file' : String} {f f' : Nat} {e e' : Expr}
    (h : parseExpression source f file = .ok e) (h' : parseExpression source' f' file' = .ok e')
    (hfloat : ∀ n ∈ e.nodes, n.isFloat = false) (hfloat' : ∀ n ∈ e'.nodes, n.isFloat = false)
    (hdisplay : e.display = e'.display) : e.bare = e'.bare := by
  obtain ⟨_, _, _, _, _, hreads, _⟩ := parseExpression_eq_ok_iff.1 h
  obtain ⟨_, _, _, _, _, hreads', _⟩ := parseExpression_eq_ok_iff.1 h'
  refine (Expr.clear e (hreads.isWritable hfloat) e' [] [] (hreads'.isWritable hfloat') nofun nofun ?_).1
  rw [List.append_nil, List.append_nil, Expr.text, Expr.text, hdisplay]

theorem parse_call : ∃ e, parseExpression "f(-a)[0]" 0 "f" = .ok e ∧ (∀ n ∈ e.nodes, n.isFloat = false) ∧
    e.display = "f((- a))[0]" := by
  have hf : Reads 0 false 9 0 ['f'] _ := .name (by decide)
  have ha : Reads 0 false 9 3 ['a'] _ := .name (by decide)
  have hneg : Reads 0 false 7 2 "-a".toList _ := .unary .neg .nil rfl (ha.loosen (by decide))
  have hplaced : Argument.Placed 4 [] := trivial
  have hcall : Reads 0 false 8 0 "f(-a)".toList _ :=
    .invoke (hf.loosen (by decide)) .nil .nil rfl (hneg.loosen (by decide)) hplaced nofun .nil
  have hrun : Run .digit ['0'] := ⟨by decide, List.forall_mem_singleton.2 (by decide)⟩
  have hzero : Reads 0 false 9 6 ['0'] _ := .literal (.decimal hrun (by decide))
  have hindex : Reads 0 false 8 0 "f(-a)[0]".toList _ := .index hcall .nil .nil rfl (hzero.loosen (by decide)) .nil
  exact ⟨_, parseExpression_eq_ok_iff.2 ⟨[], _, [], rfl, .nil, hindex.loosen (by decide), rfl⟩, by decide, by decide⟩

theorem parse_parenthesized_call : ∃ e, parseExpression "(f) ( - a )[0x0]" 1 "g" = .ok e ∧
    (∀ n ∈ e.nodes, n.isFloat = false) ∧ e.display = "f((- a))[0]" := by
  have hf : Reads 1 false 9 1 ['f'] _ := .name (by decide)
  have hparen : Reads 1 false 9 0 "(f)".toList _ := .paren .nil rfl (hf.loosen (by decide)) .nil
  have ha : Reads 1 false 9 8 ['a'] _ := .name (by decide)
  have hneg : Reads 1 false 7 6 "- a".toList _ := .unary .neg gap_space rfl (ha.loosen (by decide))
  have hplaced : Argument.Placed 9 [] := trivial
  have hcall : Reads 1 false 8 0 "(f) ( - a )".toList _ :=
    .invoke (hparen.loosen (by decide)) gap_space gap_space rfl (hneg.loosen (by decide)) hplaced nofun gap_space
  have hrun : Run .hexDigit ['0'] := ⟨by decide, List.forall_mem_singleton.2 (by decide)⟩
  have hzero : Reads 1 false 9 12 ['0', 'x', '0'] _ := .literal (.hex (.inl rfl) hrun (by decide))
  have hindex : Reads 1 false 8 0 "(f) ( - a )[0x0]".toList _ :=
    .index hcall .nil .nil rfl (hzero.loosen (by decide)) .nil
  exact ⟨_, parseExpression_eq_ok_iff.2 ⟨[], _, [], rfl, .nil, hindex.loosen (by decide), rfl⟩, by decide, by decide⟩

/-- Parentheses around a callee and the base of an index are not seen in the tree. -/
theorem bare_eq_of_display_call : ∃ e e', parseExpression "f(-a)[0]" 0 "f" = .ok e ∧
    parseExpression "(f) ( - a )[0x0]" 1 "g" = .ok e' ∧ e.display = e'.display ∧ e.bare = e'.bare := by
  obtain ⟨e, hparse, hfloat, hdisplay⟩ := parse_call
  obtain ⟨e', hparse', hfloat', hdisplay'⟩ := parse_parenthesized_call
  have hsame := hdisplay.trans hdisplay'.symm
  exact ⟨e, e', hparse, hparse', hsame, bare_eq_of_display hparse hparse' hfloat hfloat' hsame⟩

end PegFront.Cminor
