import PegFront.Text.CharWidth
import PegFront.Text.Emoji

/-!
# Neighbours that share columns

Some characters do not add their own width to that of the text after them: the parts of an emoji,
letters that take a common shape, a carriage return before a line feed. `Joint` says what the start
of a text offers to a character put before it, and `Joint.join?` what becomes of the two.
-/

namespace PegFront.Text

def isJoiner (c : Char) : Bool := c.toNat == 0x200D

def isRegionalIndicator (c : Char) : Bool := inRanges [(0x1F1E6, 0x1F1FF)] c

def isEmojiModifier (c : Char) : Bool := inRanges [(0x1F3FB, 0x1F3FF)] c

/-- Shown as an emoji without a selector. -/
def isEmoji (c : Char) : Bool := inRanges emojiRanges c

def isModifierBase (c : Char) : Bool := inRanges modifierBaseRanges c

def isTagLetter (c : Char) : Bool := inRanges [(0xE0061, 0xE007A)] c

def isTagDigit (c : Char) : Bool := inRanges [(0xE0030, 0xE0039)] c

def isTagEnd (c : Char) : Bool := c.toNat == 0xE007F

def isKeycap (c : Char) : Bool := c.toNat == 0x20E3

def isBlackFlag (c : Char) : Bool := c.toNat == 0x1F3F4

def isLam (c : Char) : Bool :=
  inRanges [(0x644, 0x644), (0x6B5, 0x6B8), (0x76A, 0x76A), (0x8A6, 0x8A6), (0x8C7, 0x8C7)] c

def isAlef (c : Char) : Bool :=
  inRanges [(0x622, 0x623), (0x625, 0x625), (0x627, 0x627), (0x671, 0x673), (0x675, 0x675),
    (0x773, 0x774), (0x870, 0x882)] c

/-- A mark that two Arabic letters join across. -/
def isTransparent (c : Char) : Bool := charWidth c == 0 && !inRanges separatingRanges c

def isTifinaghConsonant (c : Char) : Bool := inRanges [(0x2D31, 0x2D65), (0x2D6F, 0x2D6F)] c

/-- The sign that ties two Tifinagh consonants. -/
def isTifinaghTie (c : Char) : Bool := c.toNat == 0x2D7F

/-- The first of two Lisu tone letters. -/
def isLisuTone (c : Char) : Bool := inRanges [(0xA4F8, 0xA4FB)] c

/-- The second of two Lisu tone letters. -/
def isLisuToneEnd (c : Char) : Bool := inRanges [(0xA4FC, 0xA4FD)] c

/-- A Khmer letter that is written below the one before it after a coeng sign. -/
def isKhmerLetter (c : Char) : Bool :=
  inRanges [(0x1780, 0x1782), (0x1784, 0x1787), (0x1789, 0x178C), (0x178E, 0x1793),
    (0x1795, 0x1798), (0x179B, 0x179D), (0x17A0, 0x17A0), (0x17A2, 0x17A2), (0x17A7, 0x17A7),
    (0x17AB, 0x17AC), (0x17AF, 0x17AF)] c

/-- Combining marks without a shape, which may stand between letters that share one. -/
def isIgnorableMark (c : Char) : Bool :=
  inRanges [(0x34F, 0x34F), (0x17B4, 0x17B5), (0x180B, 0x180D), (0x180F, 0x180F), (0xFE00, 0xFE0F),
    (0xE0100, 0xE01EF)] c

/-- What the start of a text offers to a character put before it. The letters that only share a
shape across a joiner remember whether one was met. -/
inductive Joint where
  | free
  | lineFeed
  | alef
  | lamed (joined : Bool)
  | orkhonI (joined : Bool)
  | bugineseYa (joined : Bool)
  /-- A Buginese ya after a joiner and the vowel that goes with it. -/
  | bugineseVowelYa
  | tifinagh (joined : Bool)
  /-- A Tifinagh consonant after the sign that ties it to another. -/
  | tiedTifinagh
  | lisuToneEnd
  | khmer
  | kiratRaiE
  | kiratRaiAi
  | emoji
  | emojiModifier
  | regionalIndicators (count : Nat)
  /-- An emoji after a joiner. -/
  | joinedEmoji
  | joinedKeycap
  | joinedRegionalIndicators (count : Nat)
  /-- The letters that end the tag of a flag joined to an emoji. -/
  | joinedTagLetters (count : Nat)
  | joinedTagDigits (count : Nat)
deriving DecidableEq, Repr

namespace Joint

def ofChar (c : Char) : Joint :=
  if isAscii c then if c == '\n' then .lineFeed else .free
  else if isEmoji c then .emoji
  else if isEmojiModifier c then .emojiModifier
  else if isRegionalIndicator c then .regionalIndicators 1
  else if isAlef c then .alef
  else if c.toNat == 0x5DC then .lamed false
  else if c.toNat == 0x10C03 then .orkhonI false
  else if c.toNat == 0x1A10 then .bugineseYa false
  else if isTifinaghConsonant c then .tifinagh false
  else if isLisuToneEnd c then .lisuToneEnd
  else if isKhmerLetter c then .khmer
  else if c.toNat == 0x16D67 then .kiratRaiE
  else if c.toNat == 0x16D68 then .kiratRaiAi
  else .free

/-- Letters that share a shape with the one before them and lose nothing by a joiner or a mark
without shape in between. -/
def isLigature : Joint → Bool
  | .lamed _ | .orkhonI _ | .bugineseYa _ | .bugineseVowelYa | .tifinagh _ | .tiedTifinagh
  | .lisuToneEnd | .khmer => true
  | _ => false

def isLetter (j : Joint) : Bool := j == .alef || j.isLigature

/-- An emoji, or a keycap before one, that a joiner waits to join. -/
def isJoined (j : Joint) : Bool := j == .joinedEmoji || j == .joinedKeycap

/-- Takes note of a joiner. -/
def withJoiner : Joint → Joint
  | .lamed _ => .lamed true
  | .orkhonI _ => .orkhonI true
  | .bugineseYa _ => .bugineseYa true
  | .tifinagh _ => .tifinagh true
  | j => j

/-- The columns and the start of the text that `c` makes with a text of so many columns that it
joins; nothing if it does not join it. -/
def join? (columns : Nat) (c : Char) (j : Joint) : Option (Nat × Joint) :=
  if j.isLigature && isJoiner c then some (columns, j.withJoiner)
  else if j.isLigature && isIgnorableMark c then some (columns, j)
  else match j with
  | .free | .joinedKeycap => none
  | .lineFeed => if c == '\r' then some (columns, .free) else none
  | .alef =>
    if isLam c then some (columns, .free)
    else if isTransparent c then some (columns, .alef)
    else none
  | .lamed joined => if joined && c.toNat == 0x5D0 then some (columns, .free) else none
  | .orkhonI joined => if joined && c.toNat == 0x10C32 then some (columns, .free) else none
  | .bugineseYa joined =>
    if joined && c.toNat == 0x1A17 then some (columns, .bugineseVowelYa) else none
  | .bugineseVowelYa => if c.toNat == 0x1A15 then some (columns, .free) else none
  | .tifinagh joined =>
    if isTifinaghTie c then some (columns + 1, .tiedTifinagh)
    else if joined && isTifinaghConsonant c then some (columns, .free)
    else none
  | .tiedTifinagh => if isTifinaghConsonant c then some (columns - 1, .free) else none
  | .lisuToneEnd => if isLisuTone c then some (columns, .free) else none
  | .khmer => if c.toNat == 0x17D2 then some (columns - 1, .free) else none
  | .kiratRaiE =>
    if c.toNat == 0x16D63 || c.toNat == 0x16D69 then some (columns, .free)
    else if c.toNat == 0x16D67 then some (columns, .kiratRaiAi)
    else if c.toNat == 0x16D68 then some (columns + 1, .kiratRaiE)
    else none
  | .kiratRaiAi => if c.toNat == 0x16D63 then some (columns, .free) else none
  | .emoji => if isJoiner c then some (columns, .joinedEmoji) else none
  | .emojiModifier =>
    if isModifierBase c then some (columns, .emoji)
    else if isJoiner c then some (columns, .joinedEmoji)
    else none
  | .regionalIndicators n =>
    if isRegionalIndicator c then some (columns + 1, .regionalIndicators (n + 1))
    else if 2 ≤ n && isJoiner c then some (columns, .joinedEmoji)
    else none
  | .joinedEmoji =>
    if isKeycap c then some (columns, .joinedKeycap)
    else if isRegionalIndicator c then some (columns + 1, .joinedRegionalIndicators 1)
    else if isEmojiModifier c then some (columns, .emojiModifier)
    else if isTagEnd c then some (columns, .joinedTagLetters 0)
    else if isEmoji c then some (columns, .emoji)
    else none
  | .joinedRegionalIndicators n =>
    if isRegionalIndicator c then
      some (if n % 2 == 1 then columns - 1 else columns + 3, .joinedRegionalIndicators (n + 1))
    else if 2 ≤ n && isJoiner c then some (columns, .joinedEmoji)
    else none
  | .joinedTagLetters n =>
    if isTagLetter c && n < 6 then some (columns, .joinedTagLetters (n + 1))
    else if isTagDigit c && n < 5 then some (columns, .joinedTagDigits 1)
    else if isBlackFlag c && 3 ≤ n then some (columns, .emoji)
    else none
  | .joinedTagDigits n =>
    if isTagDigit c && n < 3 then some (columns, .joinedTagDigits (n + 1))
    else if isBlackFlag c && n == 3 then some (columns, .emoji)
    else none

end Joint

end PegFront.Text
