import PegFront.Text.Joint

/-!
# Display width

Columns a text takes on a terminal. A text is measured from its end: every character is put before
what is measured already, joins the start of it if it can, and else adds its own width. A variation
selector waits for the character before it and is lost on one that has no such variant.
-/

namespace PegFront.Text

/-- Which variant of the character before it a variation selector asks for. -/
inductive Selector where
  | text
  | emoji
  /-- The wide form of a curly quote. -/
  | wide
deriving DecidableEq, Repr

namespace Selector

def ofChar? (c : Char) : Option Selector :=
  if c.toNat == 0xFE0E then some .text
  else if c.toNat == 0xFE0F then some .emoji
  else if c.toNat == 0xFE01 then some .wide
  else none

/-- Whether `c` has the variant. Enclosed ideographs look the same in both. -/
def selects (c : Char) : Selector → Bool
  | .emoji => inRanges variantRanges c
  | .text => inRanges variantRanges c && isEmoji c && !inRanges [(0x1F200, 0x1F2FF)] c
  | .wide => inRanges [(0x2018, 0x2019), (0x201C, 0x201D)] c

end Selector

/-- A measured text: its columns, and what its start offers to a character put before it. -/
structure Measured where
  columns : Nat
  start : Joint
  /-- A variation selector that waits for the character before it. -/
  selector : Option Selector
deriving DecidableEq, Repr

namespace Measured

def empty : Measured := ⟨0, .free, none⟩

/-- Puts a variation selector before a text. -/
def select (s : Selector) (m : Measured) : Measured :=
  let kept := m.start.isLetter || (s == .emoji && m.start.isJoined)
  ⟨m.columns, if kept then m.start else .free, some s⟩

/-- Drops a variation selector that found no use. -/
def unselect (m : Measured) : Measured :=
  ⟨m.columns, if m.start.isLetter then m.start else .free, none⟩

/-- Puts a character before the variation selector that selects its variant. -/
def present (m : Measured) : Selector → Measured
  | .emoji => ⟨m.columns + (if m.start.isJoined then 0 else 2), .emoji, none⟩
  | .text => ⟨m.columns + 1, .free, none⟩
  | .wide => ⟨m.columns + 2, .free, none⟩

/-- Puts a character before a text that does not start with a variation selector. -/
def attach (c : Char) (m : Measured) : Measured :=
  match Selector.ofChar? c with
  | some s => m.select s
  | none =>
    match m.start.join? m.columns c with
    | some (columns, start) => ⟨columns, start, none⟩
    | none => ⟨m.columns + charWidth c, .ofChar c, none⟩

def prepend (c : Char) (m : Measured) : Measured :=
  match m.selector with
  | some s => if s.selects c then m.present s else m.unselect.attach c
  | none => m.attach c

end Measured

def width (cs : List Char) : Nat := (cs.foldr Measured.prepend .empty).columns

end PegFront.Text
