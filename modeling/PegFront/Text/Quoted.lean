import PegFront.Text.CharClass
import PegFront.Text.Unprintable

/-!
# Quoted texts

Two ways of writing a text so that every char of it can be seen. `quote` writes a string, `quoteChar`
a char: what is printable stands as it is, the usual control characters and the quote in use have
two-char escapes, and the rest is written by code point. `escapeAscii` keeps printable ASCII only and
escapes both quotes.
-/

namespace PegFront.Text

def hexDigits (n : Nat) : List Char := Nat.toDigits 16 n

/-- The code point of `c` in hex, in braces, after a backslash and `u`. -/
def escapeCodePoint (c : Char) : List Char := "\\u\x7b".toList ++ hexDigits c.toNat ++ ['\x7d']

/-- Whether a quoted text shows `c` as it is. -/
def isPrintable (c : Char) : Bool :=
  if isAscii c then !isControl c else !inRanges unprintableRanges c

/-- How a char stands between two `delimiter`s. -/
def quotedChar (delimiter c : Char) : List Char :=
  if c == '\t' then ['\\', 't']
  else if c == '\r' then ['\\', 'r']
  else if c == '\n' then ['\\', 'n']
  else if c == '\\' then ['\\', '\\']
  else if c == '\x00' then ['\\', '0']
  else if c == delimiter then ['\\', c]
  else if isPrintable c then [c]
  else escapeCodePoint c

def quoteWith (delimiter : Char) (cs : List Char) : String :=
  String.ofList (delimiter :: cs.flatMap (quotedChar delimiter) ++ [delimiter])

def quote (s : String) : String := quoteWith '"' s.toList

def quoteChar (c : Char) : String := quoteWith '\'' [c]

def escapedChar (c : Char) : List Char :=
  if c == '\t' then ['\\', 't']
  else if c == '\r' then ['\\', 'r']
  else if c == '\n' then ['\\', 'n']
  else if c == '\\' || c == '\'' || c == '"' then ['\\', c]
  else if 0x20 ≤ c.toNat && c.toNat ≤ 0x7E then [c]
  else escapeCodePoint c

def escapeAscii (cs : List Char) : String := String.ofList (cs.flatMap escapedChar)

end PegFront.Text
