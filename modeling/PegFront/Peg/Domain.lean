import PegFront.Peg.Rule

/-!
# Linked domains

A domain holds the rules of all its grammars in one table; grammars refer to them by index.
-/

namespace PegFront

/-- A linked grammar. -/
structure Grammar where
  name : String
  references : List String
  /-- Own rules in the order of their declaration. -/
  rules : List (String × RuleId)
  /-- Aliases of rules of other grammars. -/
  links : List (String × RuleId) := []
  start : Option RuleId := none
  skip : Option RuleId := none
deriving DecidableEq, Repr

namespace Grammar

def ownRule? (g : Grammar) (name : String) : Option RuleId := g.rules.lookup name

/-- An own rule, or else an alias. -/
def lookup? (g : Grammar) (name : String) : Option RuleId :=
  g.ownRule? name <|> g.links.lookup name

end Grammar

structure Domain (V : Type) where
  /-- Grammars, referenced ones first. -/
  grammars : List Grammar
  rules : Array (Rule V)

namespace Domain

variable {V : Type}

def grammar? (d : Domain V) (name : String) : Option Grammar :=
  d.grammars.find? (·.name == name)

def rule? (d : Domain V) (id : RuleId) : Option (Rule V) := d.rules[id]?

/-- The rule with a qualified name. -/
def findRule? (d : Domain V) (name : String) : Option RuleId := do
  let (grammar, rule) ← splitQualified? name
  (← d.grammar? grammar).ownRule? rule

def qualifiedName? (d : Domain V) (id : RuleId) : Option String := (d.rule? id).map (·.qualifiedName)

/-- Own rules of a grammar in the order of their declaration. -/
def rulesOf (d : Domain V) (g : Grammar) : List (Rule V) := g.rules.filterMap fun (_, id) => d.rule? id

/-- First word of a listing. -/
def listingWord : String := "grammar"

/-- Listing of a grammar after its first word: what it refers to, its roles and its rules. -/
def listingBody (d : Domain V) (g : Grammar) : String :=
  let name (id : RuleId) := (d.qualifiedName? id).getD ""
  let role (word : String) (id : Option RuleId) :=
    id.toList.map fun id => "    " ++ word ++ " " ++ name id ++ ";"
  let lines :=
    [" " ++ g.name, "\x7b"] ++
    g.references.map (fun r => "    using " ++ r ++ ";") ++
    g.links.map (fun (shortName, id) => "    " ++ shortName ++ " = " ++ name id ++ ";") ++
    role "start" g.start ++ role "skip" g.skip ++
    (d.rulesOf g).map (fun r => "    " ++ r.display) ++ ["\x7d"]
  String.join (lines.map (· ++ "\n"))

def listing (d : Domain V) (g : Grammar) : String := listingWord ++ d.listingBody g

end Domain

end PegFront
