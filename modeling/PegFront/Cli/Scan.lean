import PegFront.Cli.Usage

/-!
# Reading arguments

Arguments are read from left to right against the table of one command. An option may stand before or
after operands, its value may follow it or be attached with an equals sign, and after two hyphens
there are operands only. The first argument at fault ends the reading, and so does a request for help
or for the version.
-/

namespace PegFront.Cli

inductive UsageError where
  | unexpected (argument : String)
  | valueMissing (option : String)
  | valueRefused (slot value : String)
  | repeated (option : String)
  | operandMissing (name : String)
  | commandMissing
  | commandUnknown (name : String)
deriving DecidableEq, Repr

def UsageError.message : UsageError → String
  | .unexpected argument => "unexpected argument '" ++ argument ++ "' found"
  | .valueMissing option => "a value is required for '--" ++ option ++ "' but none was supplied"
  | .valueRefused slot value => "invalid value '" ++ value ++ "' for '" ++ slot ++ "'"
  | .repeated option => "the argument '--" ++ option ++ "' cannot be used multiple times"
  | .operandMissing name => "the required argument '" ++ name ++ "' was not provided"
  | .commandMissing => "a subcommand is required but one was not provided"
  | .commandUnknown name => "unrecognized subcommand '" ++ name ++ "'"

/-- Why nothing is to be run. -/
inductive Halt where
  | usage (error : UsageError)
  | help (command : CommandSpec)
  | version
deriving DecidableEq, Repr

/-- The looks of an argument. -/
inductive Shape where
  | terminator
  | long (name : String) (attached : Option String)
  | short (letters : List Char)
  | plain
deriving DecidableEq, Repr

/-- A lone hyphen is plain. -/
def Shape.ofArgument (argument : String) : Shape :=
  match argument.toList with
  | ['-', '-'] => .terminator
  | '-' :: '-' :: text =>
    let name := text.takeWhile (· != '=')
    let attached := match text.dropWhile (· != '=') with
      | [] => none
      | _ :: value => some (String.ofList value)
    .long (String.ofList name) attached
  | ['-'] => .plain
  | '-' :: letters => .short letters
  | _ => .plain

structure Reading where
  /-- Options given, flags with an empty value. -/
  settings : List (String × String) := []
  operands : List String := []
  /-- An option whose value stood on its own. It counts only once the reading goes on. -/
  pending : Option (String × Slot × String) := none
deriving Repr

namespace Reading

/-- An option is given at most once, with a value its slot admits. -/
def set (r : Reading) (option : String) (slot : Slot) (value : String) : Except Halt Reading :=
  if (r.settings.lookup option).isSome then .error (.usage (.repeated option))
  else if slot.admits value then .ok { r with settings := r.settings ++ [(option, value)] }
  else .error (.usage (.valueRefused slot.name value))

def settle (r : Reading) : Except Halt Reading :=
  match r.pending with
  | some (option, slot, value) => { r with pending := none }.set option slot value
  | none => .ok r

def addOperand (r : Reading) (c : CommandSpec) (value : String) : Except Halt Reading :=
  match c.operands[r.operands.length]? with
  | none => .error (.usage (.unexpected value))
  | some o =>
    if o.slot.admits value then .ok { r with operands := r.operands ++ [value] }
    else .error (.usage (.valueRefused o.slot.name value))

/-- An option that takes no value. -/
def switch (r : Reading) (c : CommandSpec) (o : OptionSpec) : Except Halt Reading := do
  let r ← r.settle
  match o.role with
  | .help => .error (.help c)
  | .version => .error .version
  | .flag => r.set o.long { name := o.long } ""
  | .value _ => .error (.usage (.valueMissing o.long))

def switchAll (c : CommandSpec) : List Char → Reading → Except Halt Reading
  | [], r => .ok r
  | letter :: letters, r =>
    match c.short? letter with
    | some o => do switchAll c letters (← r.switch c o)
    | none => .error (.usage (.unexpected (String.ofList ['-', letter])))

end Reading

/-- Reads the arguments of a command up to its own command among `inner`, which comes with the
arguments behind it. -/
def scan (c : CommandSpec) (inner : List String) :
    List String → Reading → Except Halt (Reading × Option (String × List String))
  | [], r => do return (← r.settle, none)
  | argument :: rest, r =>
    match Shape.ofArgument argument with
    | .plain =>
      if inner.contains argument then .ok (r, some (argument, rest))
      else do scan c inner rest (← (← r.settle).addOperand c argument)
    | .terminator => do
      return (← rest.foldlM (fun r operand => r.addOperand c operand) (← r.settle), none)
    | .short letters => do scan c inner rest (← Reading.switchAll c letters r)
    | .long name attached =>
      match c.long? name with
      | none => .error (.usage (.unexpected argument))
      | some o =>
        match o.role, attached, rest with
        | .value slot, some value, rest => do scan c inner rest (← (← r.settle).set o.long slot value)
        | .value slot, none, value :: rest =>
          if Shape.ofArgument value = .plain then do
            scan c inner rest { ← r.settle with pending := some (o.long, slot, value) }
          else .error (.usage (.valueMissing o.long))
        | .value _, none, [] => .error (.usage (.valueMissing o.long))
        | _, some _, _ => .error (.usage (.unexpected argument))
        | _, none, rest => do scan c inner rest (← r.switch c o)

end PegFront.Cli
