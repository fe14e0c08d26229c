import PegFront.Json.Basic
import PegFront.Number.Layout

/-!
# Writing JSON

`compact` writes a value on one line, `pretty` puts every item and member on a line of its own,
indented by two blanks. Members are written in their order.
-/

namespace PegFront.Json

/-- Numbers are positional from a hundred-thousandth up to sixteen places, a half goes to the even
digit, and an exponent always has a sign. -/
def numberLayout : NumberLayout where
  tie := .even
  leastPlaces := -4
  mostPlaces := 16
  plus := "+"
  infinity := "null"

def writtenChar (c : Char) : List Char :=
  if c = '"' then ['\\', '"']
  else if c = '\\' then ['\\', '\\']
  else if c = '\n' then ['\\', 'n']
  else if c = '\r' then ['\\', 'r']
  else if c = '\t' then ['\\', 't']
  else if c = '\x08' then ['\\', 'b']
  else if c = '\x0c' then ['\\', 'f']
  else if c.toNat < 0x20 then
    let digits := Nat.toDigits 16 c.toNat
    ['\\', 'u'] ++ List.replicate (4 - digits.length) '0' ++ digits
  else [c]

def writeString (s : String) : String :=
  String.ofList ('"' :: s.toList.flatMap writtenChar ++ ['"'])

def writeInt (n : Int) : String :=
  match n with
  | .ofNat n => String.ofList (Nat.toDigits 10 n)
  | .negSucc n => "-" ++ String.ofList (Nat.toDigits 10 (n + 1))

mutual

def compact : Json → String
  | .null => "null"
  | .bool b => if b then "true" else "false"
  | .int n => writeInt n
  | .float x => numberLayout.write x
  | .string s => writeString s
  | .array items => "[" ++ ",".intercalate (compactItems items) ++ "]"
  | .object members => "\x7b" ++ ",".intercalate (compactMembers members) ++ "\x7d"

def compactItems : List Json → List String
  | [] => []
  | v :: vs => compact v :: compactItems vs

def compactMembers : List (String × Json) → List String
  | [] => []
  | (k, v) :: rest => (writeString k ++ ":" ++ compact v) :: compactMembers rest

end

/-- Lines of a bracketed list, the entries indented one step deeper than the brackets. -/
def block (opening closing : String) (indent : Nat) (entries : List String) : String :=
  let pad (n : Nat) := String.ofList (List.replicate (2 * n) ' ')
  if entries.isEmpty then opening ++ closing
  else
    opening ++ "\n" ++ pad (indent + 1) ++ (",\n" ++ pad (indent + 1)).intercalate entries ++
      "\n" ++ pad indent ++ closing

mutual

def prettyAt (indent : Nat) : Json → String
  | .array items => block "[" "]" indent (prettyItems (indent + 1) items)
  | .object members => block "\x7b" "\x7d" indent (prettyMembers (indent + 1) members)
  | v => compact v

def prettyItems (indent : Nat) : List Json → List String
  | [] => []
  | v :: vs => prettyAt indent v :: prettyItems indent vs

def prettyMembers (indent : Nat) : List (String × Json) → List String
  | [] => []
  | (k, v) :: rest => (writeString k ++ ": " ++ prettyAt indent v) :: prettyMembers indent rest

end

def pretty (v : Json) : String := prettyAt 0 v

end PegFront.Json
