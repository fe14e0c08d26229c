import PegFront.Peg.Rule

/-!
# Registries of grammars

Grammars are declared one by one in a registry before they are linked. A grammar whose declaration
depends on others is ensured by name: its factory runs only if the name is neither registered nor in
progress, and may itself add and ensure grammars first, so that grammars referring to each other are
declared once. What a factory does is a `Plan`.
-/

namespace PegFront

/-- A grammar as declared, names unresolved. -/
structure GrammarDecl (V : Type) where
  name : String
  /-- Grammars whose rules may be called by qualified name, each once. -/
  references : List String := []
  rules : List (Rule V) := []
  /-- Aliases and the qualified names they stand for. -/
  links : List (String × String) := []
  start : Option String := none
  skip : Option String := none

/-- Adds a reference unless it is there. -/
def GrammarDecl.reference {V : Type} (g : GrammarDecl V) (name : String) : GrammarDecl V :=
  if g.references.contains name then g else { g with references := g.references ++ [name] }

structure Registry (V : Type) where
  /-- Declared grammars in the order they came. -/
  grammars : List (GrammarDecl V) := []
  /-- Position of each declared grammar by its name. -/
  index : Bindings Nat := []
  /-- Names whose factories are running. -/
  pending : List String := []
  /-- Names whose factories were started, in order. -/
  started : List String := []

namespace Registry

variable {V : Type}

def empty : Registry V := {}

def position? (r : Registry V) (name : String) : Option Nat := r.index.lookup name

/-- Whether a name is registered or its factory is running. -/
def contains (r : Registry V) (name : String) : Bool :=
  (r.position? name).isSome || r.pending.contains name

/-- Registers a grammar under its name, which must be new. -/
def add (r : Registry V) (g : GrammarDecl V) : Except ParseError Unit × Registry V :=
  if (r.position? g.name).isSome then
    (.error { cause := .duplicateGrammar g.name, phase := "link" }, r)
  else
    (.ok (), { r with
      grammars := r.grammars ++ [g]
      index := r.index ++ [(g.name, r.grammars.length)] })

/-- Marks a factory as running. -/
def begin (r : Registry V) (name : String) : Registry V :=
  { r with pending := name :: r.pending, started := r.started ++ [name] }

def finish (r : Registry V) (name : String) : Registry V :=
  { r with pending := r.pending.filter (· != name) }

/-- Runs a factory for a name that is neither registered nor in progress and registers its grammar. -/
def ensureWith (r : Registry V) (name : String)
    (factory : Registry V → Except ParseError (GrammarDecl V) × Registry V) :
    Except ParseError Unit × Registry V :=
  if r.contains name then (.ok (), r)
  else
    let (outcome, r) := factory (r.begin name)
    let r := r.finish name
    match outcome with
    | .ok g => r.add g
    | .error e => (.error e, r)

end Registry

/-- The steps of a factory: registrations, whose outcomes it sees, and the grammar it ends with. -/
inductive Plan (V : Type) where
  | done (grammar : GrammarDecl V)
  | fail (error : ParseError)
  | add (grammar : GrammarDecl V) (next : Except ParseError Unit → Plan V)
  | ensure (name : String) (factory : Plan V) (next : Except ParseError Unit → Plan V)
  | ask (name : String) (next : Bool → Plan V)

namespace Plan

variable {V : Type}

def run : Plan V → Registry V → Except ParseError (GrammarDecl V) × Registry V
  | .done g, r => (.ok g, r)
  | .fail e, r => (.error e, r)
  | .add g next, r =>
    let (outcome, r) := r.add g
    (next outcome).run r
  | .ensure name factory next, r =>
    let (outcome, r) := r.ensureWith name factory.run
    (next outcome).run r
  | .ask name next, r => (next (r.contains name)).run r

/-- Goes on if a registration succeeded, fails with its error otherwise. -/
def onSuccess (next : Plan V) : Except ParseError Unit → Plan V
  | .ok _ => next
  | .error e => .fail e

/-- Adds a grammar that needs no factory, unless its name is taken. -/
def provide (g : GrammarDecl V) (next : Plan V) : Plan V :=
  .ask g.name fun known => if known then next else .add g (onSuccess next)

/-- Ensures grammars by name, one after the other, before going on. -/
def requiring (needs : List (String × Plan V)) (next : Plan V) : Plan V :=
  needs.foldr (fun (name, factory) next => .ensure name factory (onSuccess next)) next

end Plan

/-- Ensures a grammar in a registry. -/
def Registry.ensure {V : Type} (r : Registry V) (name : String) (factory : Plan V) :
    Except ParseError Unit × Registry V :=
  r.ensureWith name factory.run

end PegFront
