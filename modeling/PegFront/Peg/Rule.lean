import PegFront.Dump
import PegFront.Error
import PegFront.Peg.Printer
import PegFront.Peg.QualifiedName

/-!
# Rules

A rule is a named pattern with inherited attributes, possibly a value, and functions that run while
its pattern is matched: actions on matched text, and hooks before and after the calls of other rules.
All of them work on the `Context` of one invocation of the rule.
-/

namespace PegFront

/-! ## Contexts -/

/-- Named values; a name is bound at most once. -/
abbrev Bindings (α : Type) := List (String × α)

namespace Bindings

variable {α : Type}

def get? (bs : Bindings α) (name : String) : Option α := bs.lookup name

/-- Binds a name, in the place of the binding it had. -/
def insert (bs : Bindings α) (name : String) (value : α) : Bindings α :=
  match bs with
  | [] => [(name, value)]
  | (n, v) :: rest => if name = n then (n, value) :: rest else (n, v) :: insert rest name value

def erase (bs : Bindings α) (name : String) : Bindings α := bs.filter fun b => b.1 != name

end Bindings

/-- Working state of one invocation of a rule: inherited attributes, values of called rules and what
else the actions keep, all by name, and the value of the rule. -/
structure Context (V : Type) where
  vars : Bindings V
  value : Option V
  /-- Offset at which the invocation began. -/
  start : Nat
deriving Inhabited

structure Attribute where
  name : String
  typeName : String
deriving DecidableEq, Repr

namespace Context

variable {V : Type}

def empty : Context V := ⟨[], none, 0⟩

/-- The context a rule starts with: its attributes bound to the arguments. -/
def enter (attributes : List Attribute) (args : List V) (start : Nat) : Context V where
  vars := (attributes.zip args).foldl (fun vars (a, v) => Bindings.insert vars a.name v) []
  value := none
  start := start

def get? (ctx : Context V) (name : String) : Option V := Bindings.get? ctx.vars name

def set (ctx : Context V) (name : String) (v : V) : Context V :=
  { ctx with vars := Bindings.insert ctx.vars name v }

/-- Unbinds a name and gives the value it had. -/
def take (ctx : Context V) (name : String) : Option V × Context V :=
  (ctx.get? name, { ctx with vars := Bindings.erase ctx.vars name })

def contains (ctx : Context V) (name : String) : Bool := (ctx.get? name).isSome

def setValue (ctx : Context V) (v : V) : Context V := { ctx with value := some v }

def takeValue (ctx : Context V) : Option V × Context V := (ctx.value, { ctx with value := none })

end Context

/-! ## Actions -/

/-- What an action sees of the input its subject matched. -/
structure Matched where
  text : String
  span : Span
  file : String

/-- What an action makes of a match. -/
inductive Verdict where
  | pass
  /-- The match counts as a miss. -/
  | reject
  /-- The whole parse fails. -/
  | fail (cause : Cause)
deriving DecidableEq, Repr

def Verdict.ofBool (b : Bool) : Verdict := if b then .pass else .reject

abbrev Action (V : Type) := Context V → Matched → Verdict × Context V

/-- Computes the arguments of a call. -/
abbrev PreCall (V : Type) := Context V → List V

/-- Takes up the value of a called rule. -/
abbrev PostCall (V : Type) := Context V → V → Context V

/-! ## Rules -/

structure Rule (V : Type) where
  name : String
  /-- The grammar the rule belongs to, empty until it is linked. -/
  grammar : String := ""
  definition : Pattern
  attributes : List Attribute := []
  valueType : Option String := none
  actions : Bindings (Action V) := []
  preCalls : Bindings (PreCall V) := []
  postCalls : Bindings (PostCall V) := []
  /-- Attributes passed on to called rules, each name once. -/
  forwarded : List String := []

namespace Rule

variable {V : Type}

def new (name : String) (definition : Pattern) : Rule V := { name, definition }

/-- Declares an attribute; callers pass one argument for each, in order. -/
def inherits (r : Rule V) (name typeName : String) : Rule V :=
  { r with attributes := r.attributes ++ [⟨name, typeName⟩] }

/-- Declares that every match of the rule has a value. -/
def yielding (r : Rule V) (typeName : String) : Rule V := { r with valueType := some typeName }

/-- Binds an action that may refuse the match or fail the parse. -/
def checked (r : Rule V) (action : String) (f : Action V) : Rule V :=
  { r with actions := Bindings.insert r.actions action f }

/-- Binds an action that may refuse the match. -/
def predicate (r : Rule V) (action : String) (f : Context V → Matched → Bool × Context V) : Rule V :=
  r.checked action fun ctx m =>
    let (ok, ctx) := f ctx m
    (.ofBool ok, ctx)

/-- Binds an action that lets every match pass. -/
def action (r : Rule V) (action : String) (f : Context V → Matched → Context V) : Rule V :=
  r.checked action fun ctx m => (.pass, f ctx m)

def preCall (r : Rule V) (label : String) (f : PreCall V) : Rule V :=
  { r with preCalls := Bindings.insert r.preCalls label f }

/-- Binds what is done with the value of a call; without it the value is kept under the label. -/
def postCall (r : Rule V) (label : String) (f : PostCall V) : Rule V :=
  { r with postCalls := Bindings.insert r.postCalls label f }

/-- The value of a call becomes the value of the rule. -/
def yields (r : Rule V) (label : String) : Rule V := r.postCall label fun ctx v => ctx.setValue v

/-- Passes attributes on to a call, in the given order. -/
def forward (r : Rule V) (label : String) (names : List String) : Rule V :=
  let forwarded := names.foldl (fun fs n => if fs.contains n then fs else fs ++ [n]) r.forwarded
  { r with forwarded }.preCall label fun ctx => names.filterMap ctx.get?

def qualifiedName (r : Rule V) : String := qualify r.grammar r.name

def hasValue (r : Rule V) : Bool := r.valueType.isSome

def arity (r : Rule V) : Nat := r.attributes.length

def action? (r : Rule V) (action : String) : Option (Action V) := Bindings.get? r.actions action

def preCall? (r : Rule V) (label : String) : Option (PreCall V) := Bindings.get? r.preCalls label

def postCall? (r : Rule V) (label : String) : Option (PostCall V) := Bindings.get? r.postCalls label

/-- The arguments a rule passes to a call: none if nothing is bound to the call. -/
def argumentsOf (r : Rule V) (c : Call) (ctx : Context V) : List V :=
  match r.preCall? c.label with
  | some f => f ctx
  | none => []

/-- The signature of a rule and its pattern. -/
def display (r : Rule V) : String :=
  let attributes := r.attributes.map fun a => a.name ++ ": " ++ a.typeName
  r.name ++ (if attributes.isEmpty then "" else "(" ++ ", ".intercalate attributes ++ ")") ++
    (match r.valueType with
      | some t => ": " ++ t
      | none => "") ++
    " ::= " ++ r.definition.display ++ ";"

def dump (r : Rule V) : Dump :=
  .record "Rule" [
    ("name", .string r.name),
    ("grammar", .string r.grammar),
    ("attributes", .list (r.attributes.map fun a =>
      .record "Attribute" [("name", .string a.name), ("type_name", .string a.typeName)])),
    ("value_type", .option (r.valueType.map .string)),
    ("actions", .list ((Text.sorted (r.actions.map (·.1))).map .string)),
    ("definition", .string r.definition.display)]

end Rule

end PegFront
