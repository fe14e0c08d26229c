import PegFront.Text.Quoted

/-!
# Dumps of data

A dump shows a piece of data with the names of its constructors and fields, on one line (`flat`) or
with every part on a line of its own (`pretty`).
-/

namespace PegFront

inductive Dump where
  /-- A text shown as it is. -/
  | atom (text : String)
  /-- A constructor with named fields. -/
  | record (name : String) (fields : List (String × Dump))
  /-- A constructor with one unnamed field. -/
  | wrapped (name : String) (content : Dump)
  | list (items : List Dump)

namespace Dump

def string (s : String) : Dump := .atom (Text.quote s)

def nat (n : Nat) : Dump := .atom (toString n)

def bool (b : Bool) : Dump := .atom (if b then "true" else "false")

def option (d : Option Dump) : Dump :=
  match d with
  | none => .atom "None"
  | some d => .wrapped "Some" d

mutual

def flat : Dump → String
  | .atom text => text
  | .record name fields => name ++ " \x7b " ++ ", ".intercalate (flatFields fields) ++ " \x7d"
  | .wrapped name content => name ++ "(" ++ flat content ++ ")"
  | .list items => "[" ++ ", ".intercalate (flatItems items) ++ "]"

def flatItems : List Dump → List String
  | [] => []
  | d :: ds => flat d :: flatItems ds

def flatFields : List (String × Dump) → List String
  | [] => []
  | (name, d) :: rest => (name ++ ": " ++ flat d) :: flatFields rest

end

/-- Entries on lines of their own, one step deeper than the brackets, each with a comma. -/
def block (opening closing : String) (indent : Nat) (entries : List String) : String :=
  let pad (n : Nat) := String.ofList (List.replicate (4 * n) ' ')
  opening ++ "\n" ++ String.join (entries.map fun e => pad (indent + 1) ++ e ++ ",\n") ++
    pad indent ++ closing

mutual

def prettyAt (indent : Nat) : Dump → String
  | .atom text => text
  | .record name fields => block (name ++ " \x7b") "\x7d" indent (prettyFields (indent + 1) fields)
  | .wrapped name content => block (name ++ "(") ")" indent [prettyAt (indent + 1) content]
  | .list [] => "[]"
  | .list (d :: ds) => block "[" "]" indent (prettyAt (indent + 1) d :: prettyItems (indent + 1) ds)

def prettyItems (indent : Nat) : List Dump → List String
  | [] => []
  | d :: ds => prettyAt indent d :: prettyItems indent ds

def prettyFields (indent : Nat) : List (String × Dump) → List String
  | [] => []
  | (name, d) :: rest => (name ++ ": " ++ prettyAt indent d) :: prettyFields indent rest

end

def pretty (d : Dump) : String := prettyAt 0 d

end Dump

end PegFront
