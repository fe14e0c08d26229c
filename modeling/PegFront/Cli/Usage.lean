/-!
# Commands, options and operands

Tables of what a command takes. Reading the arguments and writing the help both go by them.
-/

namespace PegFront.Cli

/-- A value given with an option or on its own. -/
structure Slot where
  name : String
  /-- The value taken if none is given. -/
  fallback : Option String := none
  /-- The values admitted, any if the list is empty. -/
  choices : List String := []
  /-- Whether a value may be empty. -/
  blank : Bool := true
deriving DecidableEq, Repr

def Slot.admits (s : Slot) (value : String) : Bool :=
  (s.choices.isEmpty || s.choices.contains value) && (s.blank || !value.isEmpty)

inductive OptionRole where
  | value (slot : Slot)
  | flag
  | help
  | version
deriving DecidableEq, Repr

structure OptionSpec where
  /-- Name after two hyphens. -/
  long : String
  /-- Letter after one hyphen; no such option takes a value. -/
  short : Option Char := none
  role : OptionRole
  about : String
deriving DecidableEq, Repr

structure OperandSpec where
  slot : Slot
  required : Bool
  /-- Whether several values may be given. -/
  several : Bool := false
  about : String
deriving DecidableEq, Repr

structure CommandSpec where
  name : String
  about : String
  operands : List OperandSpec := []
  options : List OptionSpec := []
deriving DecidableEq, Repr

namespace CommandSpec

def long? (c : CommandSpec) (name : String) : Option OptionSpec := c.options.find? (·.long == name)

def short? (c : CommandSpec) (letter : Char) : Option OptionSpec :=
  c.options.find? (·.short == some letter)

end CommandSpec

/-! ## Help -/

/-- Pairs of a name and a text, the texts in one column. -/
def columns (rows : List (String × String)) : String :=
  let width := (rows.map (·.1.length)).foldl max 0
  String.join (rows.map fun (name, text) =>
    "  " ++ name ++ String.ofList (List.replicate (width - name.length) ' ') ++ "  " ++ text ++ "\n")

def Slot.notes (s : Slot) : String :=
  (match s.fallback with
    | some v => " [default: " ++ v ++ "]"
    | none => "") ++
  if s.choices.isEmpty then "" else " [possible values: " ++ ", ".intercalate s.choices ++ "]"

def OperandSpec.title (o : OperandSpec) : String :=
  (if o.required then "<" ++ o.slot.name ++ ">" else "[" ++ o.slot.name ++ "]") ++
    if o.several then "..." else ""

def OptionSpec.row (o : OptionSpec) : String × String :=
  let letter := match o.short with
    | some c => String.ofList ['-', c, ',', ' ']
    | none => "    "
  match o.role with
  | .value slot => (letter ++ "--" ++ o.long ++ " <" ++ slot.name ++ ">", o.about ++ slot.notes)
  | _ => (letter ++ "--" ++ o.long, o.about)

def titled (title body : String) : String :=
  if body.isEmpty then "" else "\n" ++ title ++ ":\n" ++ body

/-- Help of a command of `program`; `inner` are the commands it has itself. -/
def CommandSpec.help (program : List String) (c : CommandSpec) (inner : List CommandSpec) : String :=
  let usage := program ++ (if c.options.isEmpty then [] else ["[OPTIONS]"]) ++
    c.operands.map (·.title) ++ (if inner.isEmpty then [] else ["<COMMAND>"])
  c.about ++ "\n\nUsage: " ++ " ".intercalate usage ++ "\n" ++
    titled "Commands" (columns (inner.map fun i => (i.name, i.about))) ++
    titled "Arguments" (columns (c.operands.map fun o => (o.title, o.about ++ o.slot.notes))) ++
    titled "Options" (columns (c.options.map (·.row)))

end PegFront.Cli
