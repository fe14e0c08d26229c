import PegFront.Peg.CharSet
import Mathlib.Data.List.Basic

/-!
# Texts of character sets

`Front` describes what the scan of a class text has made of the text before a place: the ranges, and the
single chars a later `-` can still take. A scan behind a front does not depend on how the front was
written (`scan_front`), so that the set of a text is known from a front that covers it (`ofText_of_scan`).

Every list of chars and ranges has a text (`ofText_write`). What a char does to the set when it is
written in front of a text depends on whether some `-` in the text has nothing to take and stands for
itself: such a `-` takes the new char (`ofText_cons`).
-/

namespace PegFront.CharSet

/-- The texts of a char that stands alone. -/
inductive Single : Char → List Char → Prop
  | plain {c : Char} (slash : c ≠ '\\') (hyphen : c ≠ '-') : Single c [c]
  | escaped {e c : Char} (known : unescape? e = some c) : Single c ['\\', e]

/-- The texts of the high end of a range, where a `-` needs no escape. -/
inductive High : Char → List Char → Prop
  | plain {c : Char} (slash : c ≠ '\\') : High c [c]
  | escaped {e c : Char} (known : unescape? e = some c) : High c ['\\', e]

theorem Single.high {c : Char} {w : List Char} (h : Single c w) : High c w := by
  cases h with
  | plain slash _ => exact .plain slash
  | escaped known => exact .escaped known

variable {cs f w p rest below : List Char} {r made : List (Char × Char)} {c low high : Char}

/-! ### What the scan does with a char and a range -/

theorem scan_single (h : Single c w) : scan (w ++ rest) p r = scan rest (c :: p) r := by
  cases h with
  | plain => simp [scan]
  | escaped known => simp [scan, known]

theorem scan_range (h : High high w) : scan ('-' :: (w ++ rest)) (low :: p) r =
    if high < low then (r, some (.reversed low high)) else scan rest p (r ++ [(low, high)]) := by
  cases h with
  | plain slash =>
    rw [List.singleton_append, scan.eq_def]
    grind
  | escaped known => simp [scan, known]

/-! ### What the scan does with a front -/

/-- `Front text waiting ranges`: `text` holds the ranges `ranges` and, in front of or between them, the
single chars `waiting`, last first. -/
inductive Front : List Char → List Char → List (Char × Char) → Prop
  | nil : Front [] [] []
  | single {f w p : List Char} {r : List (Char × Char)} {c : Char} (front : Front f p r)
      (one : Single c w) : Front (f ++ w) (c :: p) r
  | range {f w p : List Char} {r : List (Char × Char)} {low high : Char} (front : Front f (low :: p) r)
      (ordered : low ≤ high) (last : High high w) : Front (f ++ '-' :: w) p (r ++ [(low, high)])

theorem scan_front (h : Front f p made) :
    scan (f ++ rest) below r = scan rest (p ++ below) (r ++ made) := by
  induction h generalizing rest with
  | nil => simp
  | single _ one ih => rw [List.append_assoc, ih, scan_single one, List.cons_append]
  | range _ ordered last ih =>
    rw [List.append_assoc, ih, List.cons_append, List.cons_append, scan_range last,
      if_neg (Char.not_lt.mpr ordered), List.append_assoc]

theorem Front.scan (h : Front f p r) (below : List Char) :
    CharSet.scan f below [] = CharSet.scan [] (p ++ below) r := by
  simpa using (scan_front h : CharSet.scan (f ++ []) below [] = CharSet.scan [] (p ++ below) ([] ++ r))

theorem Front.append {f' p' : List Char} {r' : List (Char × Char)} (h : Front f p r)
    (h' : Front f' p' r') : Front (f ++ f') (p' ++ p) (r ++ r') := by
  induction h' with
  | nil => simpa using h
  | single _ one ih =>
    rw [← List.append_assoc]
    exact ih.single one
  | range _ ordered last ih =>
    rw [← List.append_assoc, ← List.append_assoc]
    exact ih.range ordered last

theorem Front.ne_nil (h : Front f p r) (text : f ≠ []) : p ≠ [] ∨ r ≠ [] := by
  cases h with
  | nil => exact absurd rfl text
  | single => exact .inl (List.cons_ne_nil _ _)
  | range => exact .inr (by simp)

theorem scan_keeps_ranges (cs p : List Char) (r : List (Char × Char)) : r <+: (scan cs p r).1 := by
  fun_induction scan cs p r with
  | case1 => exact List.prefix_append _ _
  | case2 | case4 | case5 | case6 | case7 | case9 => exact List.prefix_rfl
  | case8 _ _ _ _ _ _ _ _ ih | case10 _ _ _ _ _ _ _ _ ih => exact (List.prefix_append _ _).trans ih
  | case3 _ _ _ _ _ _ ih | case11 _ _ _ _ _ _ ih | case12 _ _ _ _ _ _ ih => exact ih

/-- A text without fault is a front, or one with a `-` behind it, or has a `-` in it with nothing to take. -/
theorem front_of_scan (h : Front f p r) (valid : (scan cs p r).2 = none) :
    (∃ p' r', Front (f ++ cs) p' r') ∨
    (∃ g p' r', f ++ cs = g ++ ['-'] ∧ Front g p' r') ∨
    ∃ g r' rest, f ++ cs = g ++ '-' :: rest ∧ rest ≠ [] ∧ Front g [] r' := by
  fun_induction scan cs p r generalizing f with
  | case1 p r => exact .inl ⟨p, r, by simpa using h⟩
  | case2 | case4 | case5 | case6 | case7 | case9 => cases valid
  | case3 p r e rest c known ih => simpa using ih (h.single (.escaped known)) valid
  | case8 r low below e rest high known ordered ih =>
    simpa using ih (h.range (Char.not_lt.mp ordered) (.escaped known)) valid
  | case10 r low below high rest single escape ordered ih =>
    have slash : high ≠ '\\' := by
      rintro rfl
      cases rest with
      | nil => exact single rfl rfl
      | cons e rest => exact escape e rest rfl rfl
    simpa using ih (h.range (Char.not_lt.mp ordered) (.plain slash)) valid
  | case11 p r rest _ _ range ih =>
    cases rest with
    | nil => exact .inr (.inl ⟨f, p, r, rfl, h⟩)
    | cons high rest =>
      cases p with
      | nil => exact .inr (.inr ⟨f, r, high :: rest, rfl, List.cons_ne_nil _ _, h⟩)
      | cons low below => exact (range low below high rest rfl rfl).elim
  | case12 c rest p r slash hyphen ih => simpa using ih (h.single (.plain slash hyphen)) valid

/-! ### The set of a text -/

/-- Whether `c` is among `singles` or in one of `ranges`. -/
def covers (singles : List Char) (ranges : List (Char × Char)) (c : Char) : Bool :=
  singles.contains c || ranges.any fun r => r.1 ≤ c && c ≤ r.2

@[simp]
theorem covers_nil : covers [] [] c = false := rfl

@[simp]
theorem covers_append {p' : List Char} {r' : List (Char × Char)} :
    covers (p' ++ p) (r ++ r') c = (covers p r c || covers p' r' c) := by
  simp only [covers, List.contains_append, List.any_append]
  ac_rfl

@[simp]
theorem covers_cons {a : Char} : covers (a :: p) r c = (c == a || covers p r c) := by
  simp only [covers, List.contains_cons]
  ac_rfl

@[simp]
theorem covers_concat {low high : Char} :
    covers p (r ++ [(low, high)]) c = (covers p r c || decide (low ≤ c) && decide (c ≤ high)) := by
  simp [covers, Bool.or_assoc]

theorem accepts_exactly_range (a c : Char) : (decide (a ≤ c) && decide (c ≤ a)) = (c == a) := by
  rw [Bool.eq_iff_iff]
  simp only [Bool.and_eq_true, decide_eq_true_eq, beq_iff_eq]
  exact ⟨fun h => Char.le_antisymm h.2 h.1, fun h => h ▸ ⟨Char.le_refl _, Char.le_refl _⟩⟩

theorem any_scan_nil : ((scan [] p r).1.any fun r => r.1 ≤ c && c ≤ r.2) = covers p r c := by
  simp only [scan, List.any_append, List.any_map, List.any_reverse, Function.comp_def, accepts_exactly_range]
  rw [covers, List.contains_eq_any_beq, Bool.or_comm]

/-- How a class text begins. -/
def sign (inverse : Bool) : List Char := if inverse then ['^'] else []

theorem ofText_eq {inverse : Bool} {body : List Char} (plain : inverse = false → body.head? ≠ some '^') :
    ofText (String.ofList (sign inverse ++ body)) =
      { text := String.ofList (sign inverse ++ body), ranges := (scan body [] []).1, inverse,
        invalid := (scan body [] []).2.map Fault.message } := by
  cases inverse with
  | true => simp [ofText, sign]
  | false =>
    cases body with
    | nil => rfl
    | cons c cs =>
      have hat : c ≠ '^' := by simpa using plain rfl
      simp [ofText, sign, hat]

theorem ofText_of_scan (inverse : Bool) {body : List Char} (h : scan body [] [] = scan [] p r)
    (some_item : p ≠ [] ∨ r ≠ []) (plain : inverse = false → body.head? ≠ some '^') :
    let set := ofText (String.ofList (sign inverse ++ body))
    set.invalid = none ∧ set.inverse = inverse ∧ ∀ c, set.accepts c = (covers p r c != inverse) := by
  rw [ofText_eq plain, h]
  refine ⟨?_, rfl, fun c => ?_⟩
  · simpa [scan, or_iff_not_imp_right] using some_item
  · simp only [accepts, any_scan_nil]

/-! ### Writing a set -/

/-- What a char set is made of. -/
inductive Item where
  | char (c : Char)
  | range (low high : Char) (ordered : low ≤ high)
deriving DecidableEq, Repr

/-- The chars that are written behind a backslash. -/
def special : List Char := ['\\', '-', ']', '^', '[']

def escape (c : Char) : List Char := if c ∈ special then ['\\', c] else [c]

theorem single_escape (c : Char) : Single c (escape c) := by
  by_cases h : c ∈ special
  · rw [escape, if_pos h]
    simp only [special, List.mem_cons, List.not_mem_nil, or_false] at h
    obtain rfl | rfl | rfl | rfl | rfl := h <;> exact .escaped rfl
  · rw [escape, if_neg h]
    exact .plain (fun e => h (by simp [e, special])) fun e => h (by simp [e, special])

theorem escape_ne_nil (c : Char) : escape c ≠ [] := by
  unfold escape
  split <;> exact List.cons_ne_nil _ _

theorem head_escape (c : Char) (rest : List Char) : (escape c ++ rest).head? ≠ some '^' := by
  by_cases h : c ∈ special
  · simp [escape, if_pos h]
  · rw [escape, if_neg h]
    simpa using fun e : c = '^' => h (by simp [e, special])

namespace Item

/-- An item as it stands in a class text. -/
def text : Item → List Char
  | .char c => escape c
  | .range low high _ => escape low ++ '-' :: escape high

def has : Item → Char → Bool
  | .char a, c => c == a
  | .range low high _, c => low ≤ c && c ≤ high

theorem exists_front (item : Item) :
    ∃ p r, Front item.text p r ∧ ∀ c, covers p r c = item.has c := by
  have single (a : Char) : Front (escape a) [a] [] := by simpa using Front.nil.single (single_escape a)
  cases item with
  | char a => exact ⟨[a], [], single a, fun c => by simp [has]⟩
  | range low high ordered =>
    exact ⟨[], [(low, high)], (single low).range ordered (single_escape high).high, fun c => by
      simpa [has] using covers_concat (p := []) (r := []) (c := c)⟩

theorem head_text (item : Item) (rest : List Char) : (item.text ++ rest).head? ≠ some '^' := by
  cases item with
  | char c => exact head_escape c rest
  | range low high _ =>
    rw [text, List.append_assoc]
    exact head_escape low _

theorem text_ne_nil (item : Item) : item.text ≠ [] := by
  cases item with
  | char c => exact escape_ne_nil c
  | range low high _ => exact List.append_ne_nil_of_left_ne_nil (escape_ne_nil low) _

theorem exists_front_flatMap (items : List Item) :
    ∃ p r, Front (items.flatMap text) p r ∧ ∀ c, covers p r c = items.any (·.has c) := by
  induction items with
  | nil => exact ⟨[], [], .nil, fun c => rfl⟩
  | cons item items ih =>
    obtain ⟨p, r, front, has_eq⟩ := item.exists_front
    obtain ⟨p', r', front', any_eq⟩ := ih
    exact ⟨p' ++ p, r ++ r', front.append front', fun c => by simp [has_eq, any_eq]⟩

end Item

/-- The class text that holds `items`. -/
def write (inverse : Bool) (items : List Item) : String :=
  String.ofList (sign inverse ++ items.flatMap Item.text)

/-- Every list of items has a class text. -/
theorem ofText_write (inverse : Bool) {items : List Item} (some_item : items ≠ []) :
    (ofText (write inverse items)).invalid = none ∧ (ofText (write inverse items)).inverse = inverse ∧
      ∀ c, (ofText (write inverse items)).accepts c = (items.any (·.has c) != inverse) := by
  obtain ⟨p, r, front, any_eq⟩ := Item.exists_front_flatMap items
  obtain ⟨item, rest, rfl⟩ := List.exists_cons_of_ne_nil some_item
  have head : ((item :: rest).flatMap Item.text).head? ≠ some '^' := item.head_text _
  have body : (item :: rest).flatMap Item.text ≠ [] :=
    List.append_ne_nil_of_left_ne_nil item.text_ne_nil _
  simp only [← any_eq]
  exact ofText_of_scan inverse (by simpa using front.scan []) (front.ne_nil body) fun _ => head

/-- An inverted set of special chars and ranges that end in them. -/
theorem ofText_write_special :
    let items := [.range '[' '^' (by decide), .char '-', .range '+' '-' (by decide), .char '\\', .char 'é']
    items ≠ [] ∧ write true items = "^\\[-\\^\\-+-\\-\\\\é" ∧
      (ofText (write true items)).invalid = none ∧ (ofText (write true items)).inverse = true ∧
      ∀ c, (ofText (write true items)).accepts c = (items.any (·.has c) != true) :=
  ⟨by decide, by decide, ofText_write true (by decide)⟩

/-! ### One char more -/

/-- Some `-` before the end of `text` has no single char in front of it to take. It stands for itself. -/
def LooseHyphen (text : List Char) : Prop :=
  ∃ f r rest, text = f ++ '-' :: rest ∧ rest ≠ [] ∧ Front f [] r

theorem scan_last_hyphen : scan ['-'] p r = scan [] ('-' :: p) r := by
  cases p <;> rfl

theorem scan_loose_hyphen : scan ('-' :: rest) [] r = scan rest ['-'] r := by
  cases rest <;> rfl

/-- What a text without loose `-` holds is the same behind other chars. -/
theorem exists_scan_of_not_loose (valid : (scan cs [] []).2 = none) (loose : ¬ LooseHyphen cs) :
    ∃ p r, ∀ below, scan cs below [] = scan [] (p ++ below) r := by
  obtain ⟨p, r, front⟩ | ⟨g, p, r, rfl, front⟩ | h := front_of_scan Front.nil valid
  · exact ⟨p, r, front.scan⟩
  · exact ⟨'-' :: p, r, fun below => (scan_front front).trans scan_last_hyphen⟩
  · exact absurd h loose

theorem exists_high (some_char : rest ≠ []) (valid : (scan rest p r).2 = none) :
    ∃ high w rest', rest = w ++ rest' ∧ High high w := by
  obtain ⟨c, rest, rfl⟩ := List.exists_cons_of_ne_nil some_char
  by_cases slash : c = '\\'
  · subst slash
    cases rest with
    | nil => cases valid
    | cons e rest =>
      cases known : unescape? e with
      | none => simp [scan, known] at valid
      | some high => exact ⟨high, ['\\', e], rest, rfl, .escaped known⟩
  · exact ⟨c, [c], rest, rfl, .plain slash⟩

theorem scan_takes_loose {x : Char} (front : Front f [] r) (last : High high w) :
    scan (f ++ '-' :: (w ++ rest)) [x] [] =
      if high < x then (r, some (.reversed x high)) else scan rest [] (r ++ [(x, high)]) := by
  rw [scan_front front, List.nil_append, List.nil_append, scan_range last]

theorem ofText_plain {t : String} (start : t.toList.head? ≠ some '^') :
    ofText t = { text := t, ranges := (scan t.toList [] []).1, inverse := false,
                 invalid := (scan t.toList [] []).2.map Fault.message } := by
  simpa [sign] using (ofText_eq fun _ => start :
    ofText (String.ofList (sign false ++ t.toList)) = _)

theorem accepts_of_scan {t : String} (scanned : scan t.toList [] [] = scan [] p r)
    (start : t.toList.head? ≠ some '^') : (ofText t).accepts c = covers p r c := by
  rw [ofText_plain start, accepts, scanned, any_scan_nil]
  exact Bool.bne_false _

theorem accepts_of_range {t : String} (start : t.toList.head? ≠ some '^')
    (range : (low, high) ∈ (scan t.toList [] []).1) (above : low ≤ c) (below : c ≤ high) :
    (ofText t).accepts c = true := by
  have inside : ((scan t.toList [] []).1.any fun r => r.1 ≤ c && c ≤ r.2) = true :=
    List.any_eq_true.mpr ⟨_, range, by simp [above, below]⟩
  rw [ofText_plain start, accepts, inside]
  rfl

section

variable {x : Char} {t : String}

theorem scan_singleton_append (hyphen : x ≠ '-') (slash : x ≠ '\\') :
    scan (String.singleton x ++ t).toList [] [] = scan t.toList [x] [] := by
  simpa using (scan_single (.plain slash hyphen) : scan ([x] ++ t.toList) [] [] = _)

theorem head_singleton_append (hat : x ≠ '^') : (String.singleton x ++ t).toList.head? ≠ some '^' := by
  simpa using hat

theorem ofText_cons_not_loose (hat : x ≠ '^') (hyphen : x ≠ '-') (slash : x ≠ '\\')
    (start : t.toList.head? ≠ some '^') (valid : (scan t.toList [] []).2 = none)
    (loose : ¬ LooseHyphen t.toList) :
    (ofText (String.singleton x ++ t)).invalid = none ∧
      ∀ c, (ofText (String.singleton x ++ t)).accepts c = (c == x || (ofText t).accepts c) := by
  have start_more := head_singleton_append (t := t) hat
  obtain ⟨p, r, scanned⟩ := exists_scan_of_not_loose valid loose
  have alone : scan t.toList [] [] = scan [] p r := by simpa using scanned []
  have more : scan (String.singleton x ++ t).toList [] [] = scan [] (p ++ [x]) r :=
    (scan_singleton_append hyphen slash).trans (scanned [x])
  refine ⟨?_, fun c => ?_⟩
  · rw [ofText_plain start_more, more]
    simp [scan]
  · have apart : covers (p ++ [x]) ([] ++ r) c = (covers [x] [] c || covers p r c) := covers_append
    simpa [accepts_of_scan more start_more, accepts_of_scan alone start] using apart

theorem ofText_cons_loose_hyphen (hat : x ≠ '^') (hyphen : x ≠ '-') (slash : x ≠ '\\')
    (split : t.toList = f ++ '-' :: (w ++ rest)) (front : Front f [] r) (last : High high w) :
    (high < x → (ofText (String.singleton x ++ t)).invalid = some (Fault.reversed x high).message) ∧
      (x ≤ high → ∀ c, x ≤ c → c ≤ high → (ofText (String.singleton x ++ t)).accepts c = true) := by
  have start_more := head_singleton_append (t := t) hat
  have more := scan_singleton_append (t := t) hyphen slash
  rw [split, scan_takes_loose front last] at more
  refine ⟨fun reversed => ?_, fun ordered c above below => ?_⟩
  · rw [ofText_plain start_more, more, if_pos reversed]
    rfl
  · rw [if_neg (Char.not_lt.mpr ordered)] at more
    refine accepts_of_range start_more ?_ above below
    rw [more]
    exact (scan_keeps_ranges rest [] _).subset (by simp)

end

/-- A char written in front of a text adds itself to the set, unless the text has a loose `-`: that takes the
new char as its low end. -/
theorem ofText_cons {x : Char} (hat : x ≠ '^') (hyphen : x ≠ '-') (slash : x ≠ '\\') {t : String}
    (start : t.toList.head? ≠ some '^') (valid : (ofText t).invalid = none) :
    let more := ofText (String.singleton x ++ t)
    (¬ LooseHyphen t.toList →
      more.invalid = none ∧ ∀ c, more.accepts c = (c == x || (ofText t).accepts c)) ∧
    (LooseHyphen t.toList → ∃ f r high w rest,
      t.toList = f ++ '-' :: (w ++ rest) ∧ Front f [] r ∧ High high w ∧
        (high < x → more.invalid = some (Fault.reversed x high).message) ∧
        (x ≤ high → ∀ c, x ≤ c → c ≤ high → more.accepts c = true)) := by
  have valid_scan : (scan t.toList [] []).2 = none := by simpa [ofText_plain start] using valid
  refine ⟨ofText_cons_not_loose hat hyphen slash start valid_scan, ?_⟩
  rintro ⟨f, r, rest, split, some_char, front⟩
  have valid_rest : (scan rest ['-'] r).2 = none := by
    simpa [split, scan_front front, scan_loose_hyphen] using valid_scan
  obtain ⟨high, w, rest, rfl, last⟩ := exists_high some_char valid_rest
  exact ⟨f, r, high, w, rest, split, front, last,
    ofText_cons_loose_hyphen hat hyphen slash split front last⟩

/-- In `a-c-e` the second `-` is loose. -/
theorem ofText_cons_loose : (ofText "a-c-e").invalid = none ∧ LooseHyphen "a-c-e".toList ∧
    ∃ f r high w rest, "a-c-e".toList = f ++ '-' :: (w ++ rest) ∧ Front f [] r ∧ High high w ∧
      (high < 'z' → (ofText "za-c-e").invalid = some (Fault.reversed 'z' high).message) ∧
      ('z' ≤ high → ∀ c, 'z' ≤ c → c ≤ high → (ofText "za-c-e").accepts c = true) := by
  have front : Front ['a', '-', 'c'] [] [('a', 'c')] :=
    (Front.nil.single (.plain (by decide) (by decide))).range (by decide) (.plain (by decide))
  have loose : LooseHyphen "a-c-e".toList := ⟨_, _, ['e'], by decide, by decide, front⟩
  have valid : (ofText "a-c-e").invalid = none := by decide +kernel
  exact ⟨valid, loose,
    (ofText_cons (by decide) (by decide) (by decide) (by decide) valid).2 loose⟩

/-- A text without fault can get one from a char in front of it. -/
theorem not_forall_ofText_cons : ¬ ∀ (t : String) (x : Char), (ofText t).invalid = none →
    t.toList.head? ≠ some '^' → t.toList.head? ≠ some '-' → x ≠ '^' → x ≠ '-' → x ≠ '\\' →
    (ofText (String.singleton x ++ t)).invalid = none ∧
      ∀ c, (ofText (String.singleton x ++ t)).accepts c ↔ c = x ∨ (ofText t).accepts c :=
  fun h => absurd (h "a-c-e" 'z' (by decide +kernel) (by decide) (by decide) (by decide) (by decide)
    (by decide)).1 (by decide +kernel)

end PegFront.CharSet
