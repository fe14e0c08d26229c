import PegFront.Json.Basic
import PegFront.Text.CharClass

/-!
# Reading JSON

A recursive-descent reader over the chars of a document. Numbers without a fraction and an exponent
are integers while they fit in 64 bits, all others are floating-point numbers; of two members with
one key the later one counts, and members are kept ascending by key. The fuel of the reader bounds
the nesting and is never used up by a document of its length.
-/

namespace PegFront.Json.Reader

def isSpace (c : Char) : Bool := c == ' ' || c == '\t' || c == '\n' || c == '\r'

def skipSpace (cs : List Char) : List Char := cs.dropWhile isSpace

/-- Value of a hex digit. -/
def hexValue? (c : Char) : Option Nat :=
  if c.isDigit then some (c.toNat - '0'.toNat)
  else if 'a' ≤ c && c ≤ 'f' then some (c.toNat - 'a'.toNat + 10)
  else if 'A' ≤ c && c ≤ 'F' then some (c.toNat - 'A'.toNat + 10)
  else none

/-- Four hex digits as a 16-bit unit. -/
def unit? : List Char → Option (Nat × List Char)
  | a :: b :: c :: d :: rest => do
    let a ← hexValue? a
    let b ← hexValue? b
    let c ← hexValue? c
    let d ← hexValue? d
    some (a * 4096 + b * 256 + c * 16 + d, rest)
  | _ => none

/-- The code point after a backslash and `u`: one unit, or a pair of surrogates. -/
def codePoint? (cs : List Char) : Option (Char × List Char) := do
  let (high, rest) ← unit? cs
  if 0xD800 ≤ high && high ≤ 0xDBFF then
    match rest with
    | '\\' :: 'u' :: rest =>
      let (low, rest) ← unit? rest
      guard (0xDC00 ≤ low && low ≤ 0xDFFF)
      some (Char.ofNat (0x10000 + (high - 0xD800) * 1024 + (low - 0xDC00)), rest)
    | _ => none
  else if 0xDC00 ≤ high && high ≤ 0xDFFF then none
  else some (Char.ofNat high, rest)

def escapedChar? : Char → Option Char
  | '"' => some '"'
  | '\\' => some '\\'
  | '/' => some '/'
  | 'b' => some '\x08'
  | 'f' => some '\x0c'
  | 'n' => some '\n'
  | 'r' => some '\r'
  | 't' => some '\t'
  | _ => none

/-- The rest of a string after its opening quote; `acc` holds the chars read so far, last first. -/
def stringTail : Nat → List Char → List Char → Option (String × List Char)
  | 0, _, _ => none
  | _, _, [] => none
  | fuel + 1, acc, c :: cs =>
    if c = '"' then some (String.ofList acc.reverse, cs)
    else if c = '\\' then
      match cs with
      | 'u' :: rest =>
        match codePoint? rest with
        | some (d, rest) => stringTail fuel (d :: acc) rest
        | none => none
      | e :: rest =>
        match escapedChar? e with
        | some d => stringTail fuel (d :: acc) rest
        | none => none
      | [] => none
    else if c.toNat < 0x20 then none
    else stringTail fuel (c :: acc) cs

def digitsValue (ds : List Char) : Nat := ds.foldl (fun n d => n * 10 + (d.toNat - '0'.toNat)) 0

/-- An integer while it fits in 64 bits, else the nearest floating-point number. -/
def wholeNumber (negative : Bool) (n : Nat) : Json :=
  if negative then
    if n = 0 then .float (.ofMagnitude true 0)
    else if n ≤ wordCount63 then .int (-n)
    else .float (.ofDecimal true n 0)
  else if n < wordCount64 then .int n
  else .float (.ofDecimal false n 0)

def finite? (x : Binary64) : Option Json := if x.isFinite then some (.float x) else none

def number (cs : List Char) : Option (Json × List Char) := do
  let (negative, cs) := match cs with
    | '-' :: rest => (true, rest)
    | cs => (false, cs)
  let (whole, cs) := cs.span Char.isDigit
  guard (!whole.isEmpty && (whole.length = 1 || whole.head? ≠ some '0'))
  let (fraction, cs) ← match cs with
    | '.' :: rest =>
      let (ds, rest) := rest.span Char.isDigit
      if ds.isEmpty then none else some (some ds, rest)
    | cs => some (none, cs)
  let (exponent, cs) ← match cs with
    | e :: rest =>
      if e = 'e' || e = 'E' then
        let (sign, rest) : Int × List Char := match rest with
          | '-' :: rest => (-1, rest)
          | '+' :: rest => (1, rest)
          | rest => (1, rest)
        let (ds, rest) := rest.span Char.isDigit
        if ds.isEmpty then none else some (some (sign * digitsValue ds), rest)
      else some (none, cs)
    | [] => some (none, [])
  match fraction, exponent with
  | none, none => some (wholeNumber negative (digitsValue whole), cs)
  | _, _ =>
    let fraction := fraction.getD []
    let value ← finite? (.ofDecimal negative (digitsValue (whole ++ fraction))
      (exponent.getD 0 - fraction.length))
    some (value, cs)

/-- Puts a member in its place by key; a member with the same key is replaced. -/
def insertMember (key : String) (value : Json) : List (String × Json) → List (String × Json)
  | [] => [(key, value)]
  | (k, v) :: rest =>
    if key = k then (key, value) :: rest
    else if key < k then (key, value) :: (k, v) :: rest
    else (k, v) :: insertMember key value rest

def word? (word : String) (cs : List Char) : Option (List Char) :=
  if word.toList.isPrefixOf cs then some (cs.drop word.length) else none

mutual

def value : Nat → List Char → Option (Json × List Char)
  | 0, _ => none
  | fuel + 1, cs =>
    match skipSpace cs with
    | [] => none
    | c :: rest =>
      if c = '"' then (stringTail (rest.length + 1) [] rest).map fun (s, rest) => (.string s, rest)
      else if c = '[' then
        match skipSpace rest with
        | ']' :: rest => some (.array [], rest)
        | rest => items fuel [] rest
      else if c = '\x7b' then
        match skipSpace rest with
        | '\x7d' :: rest => some (.object [], rest)
        | rest => members fuel [] rest
      else if c = 'n' then (word? "null" (c :: rest)).map fun rest => (.null, rest)
      else if c = 't' then (word? "true" (c :: rest)).map fun rest => (.bool true, rest)
      else if c = 'f' then (word? "false" (c :: rest)).map fun rest => (.bool false, rest)
      else number (c :: rest)

/-- Items up to the closing bracket; `acc` holds those read so far, last first. -/
def items : Nat → List Json → List Char → Option (Json × List Char)
  | 0, _, _ => none
  | fuel + 1, acc, cs =>
    match value fuel cs with
    | none => none
    | some (v, rest) =>
      match skipSpace rest with
      | ',' :: rest => items fuel (v :: acc) rest
      | ']' :: rest => some (.array (v :: acc).reverse, rest)
      | _ => none

def members : Nat → List (String × Json) → List Char → Option (Json × List Char)
  | 0, _, _ => none
  | fuel + 1, acc, cs =>
    match skipSpace cs with
    | '"' :: rest =>
      match stringTail (rest.length + 1) [] rest with
      | none => none
      | some (key, rest) =>
        match skipSpace rest with
        | ':' :: rest =>
          match value fuel rest with
          | none => none
          | some (v, rest) =>
            let acc := insertMember key v acc
            match skipSpace rest with
            | ',' :: rest => members fuel acc rest
            | '\x7d' :: rest => some (.object acc, rest)
            | _ => none
        | _ => none
    | _ => none

end

end Reader

/-- Reads one document, blanks around it allowed. -/
def parse? (text : String) : Option Json :=
  let cs := text.toList
  match Reader.value (2 * cs.length + 2) cs with
  | some (v, rest) => if (Reader.skipSpace rest).isEmpty then some v else none
  | none => none

end PegFront.Json
