import PegFront.Peg.Domain
import PegFront.Peg.Registry

/-!
# Linking

Linking turns a registry into a domain. It orders the grammars so that referenced ones come first,
numbers the rules, resolves aliases, start and skip rules, and then every call by name; whatever is
wrong with a grammar is found here, before any input is parsed.
-/

namespace PegFront

namespace Link

variable {V : Type}

def linkError (cause : Cause) : ParseError := { cause, phase := "link" }

/-! ## Order -/

/-- State of the depth-first walk: what was entered, and what was left, in order. -/
structure Walk where
  seen : List Nat := []
  order : List Nat := []

/-- Visits `i` after everything it refers to. Each nested visit enters a new grammar, so fuel of one
more than the number of grammars is never used up. -/
def visit (references : Nat → List Nat) : Nat → Nat → Walk → Walk
  | 0, _, w => w
  | fuel + 1, i, w =>
    if w.seen.contains i then w
    else
      let w := (references i).foldl (fun w j => visit references fuel j w)
        { w with seen := i :: w.seen }
      { w with order := w.order ++ [i] }

/-- Positions of the grammars, referenced ones before those that refer to them. Inside a cycle the
grammar that is reached first comes last. -/
def dependencyOrder (count : Nat) (references : Nat → List Nat) : List Nat :=
  ((List.range count).foldl (fun w i => visit references (count + 1) i w) {}).order

end Link

/-- Positions of the grammars a declared grammar refers to. -/
def Registry.referencesOf {V : Type} (r : Registry V) (i : Nat) : List Nat :=
  match r.grammars[i]? with
  | some g => g.references.filterMap r.position?
  | none => []

namespace Link

variable {V : Type}

/-- Every referenced grammar is registered. -/
def checkReferences (r : Registry V) : Except ParseError Unit :=
  r.grammars.forM fun g => g.references.forM fun name =>
    if (r.position? name).isSome then .ok ()
    else .error (linkError (.unknownGrammar name g.name))

/-! ## Numbering -/

/-- The first name that occurs for the second time. -/
def firstRepeated? : List String → (seen : List String) → Option String
  | [], _ => none
  | n :: ns, seen => if seen.contains n then some n else firstRepeated? ns (n :: seen)

/-- A declared grammar with the numbers its rules got. -/
structure Block (V : Type) where
  decl : GrammarDecl V
  grammar : Grammar
  rules : List (Rule V)

/-- Numbers the rules of the grammars one after the other, from `next` on. -/
def number (next : Nat) : List (GrammarDecl V) → Except ParseError (List (Block V))
  | [] => .ok []
  | g :: gs =>
    let names := g.rules.map (·.name)
    match firstRepeated? names [] with
    | some rule => .error (linkError (.duplicateRule g.name rule))
    | none => do
      let rest ← number (next + names.length) gs
      let grammar : Grammar :=
        { name := g.name, references := g.references, rules := names.zipIdx next }
      return ⟨g, grammar, g.rules.map fun rule => { rule with grammar := g.name }⟩ :: rest

/-! ## Names -/

def find? (grammars : List Grammar) (name : String) : Option Grammar :=
  grammars.find? (·.name == name)

/-- The rule an alias stands for: an own rule of the grammar before the last dot. -/
def resolveAlias (grammars : List Grammar) (owner target : String) : Except ParseError RuleId :=
  let unknown := linkError (.unknownRule owner target "link target")
  match splitQualified? target with
  | none => .error unknown
  | some (grammar, rule) =>
    match find? grammars grammar with
    | none => .error (linkError (.unknownGrammar grammar owner))
    | some g =>
      match g.ownRule? rule with
      | some id => .ok id
      | none => .error unknown

def resolveAliases (grammars : List Grammar) (b : Block V) : Except ParseError (Block V) := do
  let links ← b.decl.links.mapM fun (name, target) => do
    return (name, ← resolveAlias grammars b.decl.name target)
  return { b with grammar := { b.grammar with links } }

/-- The rule that plays a role in a grammar. -/
def resolveRole (g : Grammar) (role : String) : Option String → Except ParseError (Option RuleId)
  | none => .ok none
  | some name =>
    match g.lookup? name with
    | some id => .ok (some id)
    | none => .error (linkError (.unknownRule g.name name role))

/-- A skip rule has neither attributes nor a value: nothing can be passed to it between two parts of
a match, and nothing it leaves is kept. -/
def checkSkipRule (rules : Array (Rule V)) (g : Grammar) : Except ParseError Unit :=
  match g.skip.bind (rules[·]?) with
  | some rule =>
    if rule.arity != 0 || rule.hasValue then
      .error (linkError (.invalidSkipRule g.name rule.qualifiedName))
    else .ok ()
  | none => .ok ()

def resolveRoles (rules : Array (Rule V)) (b : Block V) : Except ParseError (Block V) := do
  let start ← resolveRole b.grammar "start" b.decl.start
  let skip ← resolveRole b.grammar "skip" b.decl.skip
  let grammar := { b.grammar with start, skip }
  checkSkipRule rules grammar
  return { b with grammar }

/-- The rule a call names: an own rule, an alias, or a qualified rule of the grammar itself or of one
it refers to. -/
def resolve? (grammars : List Grammar) (g : Grammar) (name : String) : Option RuleId :=
  g.lookup? name <|> do
    let (grammar, rule) ← splitQualified? name
    guard (grammar == g.name || g.references.contains grammar)
    (← find? grammars grammar).ownRule? rule

/-! ## Rules -/

/-- Attributes passed on are attributes of the rule. -/
def checkForwarded (rule : Rule V) : Except ParseError Unit :=
  rule.forwarded.forM fun name =>
    if rule.attributes.any (·.name == name) then .ok ()
    else .error (linkError (.unknownAttribute rule.qualifiedName name))

/-- What is wrong with a single node of a rule's pattern. -/
def nodeFault? (rule : Rule V) : Pattern → Option Cause
  | .act action _ =>
    if (rule.action? action).isSome then none
    else some (.unboundAction rule.qualifiedName action)
  | .one (.oneOf set) => set.invalid.map (.invalidCharSet set.text)
  | _ => none

def checkNodes (rule : Rule V) : Except ParseError Unit :=
  match rule.definition.nodes.findSome? (nodeFault? rule) with
  | some cause => .error (linkError cause)
  | none => .ok ()

def linkCall (grammars : List Grammar) (rules : Array (Rule V)) (g : Grammar) (caller : String)
    (c : Call) : Except ParseError Call :=
  match resolve? grammars g c.rule with
  | none => .error (linkError (.unresolvedRule caller c.label c.rule))
  | some id =>
    let expected := match rules[id]? with
      | some callee => callee.arity
      | none => 0
    if c.arity != expected then
      .error (linkError (.argumentCountMismatch caller c.rule expected c.arity))
    else .ok { c with target := some id }

def linkRule (grammars : List Grammar) (rules : Array (Rule V)) (g : Grammar) (rule : Rule V) :
    Except ParseError (Rule V) := do
  checkForwarded rule
  checkNodes rule
  let definition ← rule.definition.mapCallsM (linkCall grammars rules g rule.qualifiedName)
  return { rule with definition }

end Link

open Link in
/-- Links all grammars of a registry. -/
def Registry.link {V : Type} (r : Registry V) : Except ParseError (Domain V) := do
  checkReferences r
  let order := dependencyOrder r.grammars.length r.referencesOf
  let blocks ← number 0 (order.filterMap (r.grammars[·]?))
  let rules := (blocks.flatMap (·.rules)).toArray
  let blocks ← blocks.mapM (resolveAliases (blocks.map (·.grammar)))
  let blocks ← blocks.mapM (resolveRoles rules)
  let grammars := blocks.map (·.grammar)
  let linked ← blocks.mapM fun b => b.rules.mapM (linkRule grammars rules b.grammar)
  return ⟨grammars, linked.flatten.toArray⟩

end PegFront
