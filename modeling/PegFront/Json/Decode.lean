import PegFront.Json.Basic

/-!
# Decoding documents

How records and variants are found in a document. A record is an object, unknown members aside, or an
array of its fields in their order. A variant without content is a string or an object with a null
under its name, one with content is an object of a single member.
-/

namespace PegFront.Json

mutual

/-- How deep arrays and objects are nested. -/
def depth : Json → Nat
  | .array items => depthItems items + 1
  | .object members => depthMembers members + 1
  | _ => 0

def depthItems : List Json → Nat
  | [] => 0
  | v :: vs => max (depth v) (depthItems vs)

def depthMembers : List (String × Json) → Nat
  | [] => 0
  | (_, v) :: rest => max (depth v) (depthMembers rest)

end

namespace Decode

/-- The fields of a record in their order, missing ones as none. -/
def fields? (names : List String) : Json → Option (List (Option Json))
  | .object members => some (names.map fun n => members.lookup n)
  | .array items => if items.length = names.length then some (items.map some) else none
  | _ => none

/-- The fields of a record of which any may be missing. -/
def openFields? (names : List String) : Json → Option (List (Option Json))
  | .object members => some (names.map fun n => members.lookup n)
  | .array items =>
    if items.length ≤ names.length then
      some (items.map some ++ List.replicate (names.length - items.length) none)
    else none
  | _ => none

/-- A field that may be missing or null. -/
def optional? {α : Type} (decode? : Json → Option α) : Option Json → Option (Option α)
  | none => some none
  | some .null => some none
  | some v => (decode? v).map some

/-- A field with a default. -/
def withDefault? {α : Type} (default : α) (decode? : Json → Option α) : Option Json → Option α
  | none => some default
  | some v => decode? v

/-- Name and content of a variant. -/
def variant? : Json → Option (String × Option Json)
  | .string name => some (name, none)
  | .object [(name, content)] => some (name, some content)
  | _ => none

/-- Name of a variant without content. -/
def plainVariant? (v : Json) : Option String :=
  match variant? v with
  | some (name, none) => some name
  | some (name, some .null) => some name
  | _ => none

/-- The variant without content that `nameOf` names. -/
def choice? {α : Type} (all : List α) (nameOf : α → String) (v : Json) : Option α := do
  let name ← plainVariant? v
  all.find? (nameOf · == name)

def list? {α : Type} (decode? : Json → Option α) : Json → Option (List α)
  | .array items => items.mapM decode?
  | _ => none

/-- A natural number below a bound. -/
def natBelow? (bound : Nat) (v : Json) : Option Nat := v.nat?.filter (· < bound)

def word32? (v : Json) : Option Nat := natBelow? wordCount32 v

def word64? (v : Json) : Option Nat := natBelow? wordCount64 v

/-- A string of a single char. -/
def char? (v : Json) : Option Char := do
  match (← v.string?).toList with
  | [c] => some c
  | _ => none

/-- A number; an integer counts as the nearest floating-point number. -/
def float? : Json → Option Binary64
  | .float x => some x
  | .int n => some (.ofInt n)
  | _ => none

end Decode

end PegFront.Json
