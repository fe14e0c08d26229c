import PegFront.Cli.Scan
import PegFront.Cminor.Front
import PegFront.Cminor.Syntax.Names

/-!
# The command line

The commands of the program, and what the arguments ask of it.
-/

namespace PegFront.Cli

open Cminor (SourceKind)

inductive ColorMode where
  | auto
  | always
  | never
deriving DecidableEq, Repr

namespace ColorMode

def all : List ColorMode := [.auto, .always, .never]

def word : ColorMode → String
  | .auto => "auto"
  | .always => "always"
  | .never => "never"

def ofWord? (w : String) : Option ColorMode := all.find? (·.word == w)

end ColorMode

def kindWord (k : SourceKind) : String := Cminor.snakeCase k.displayName

def kindOfWord? (w : String) : Option SourceKind := SourceKind.all.find? (kindWord · == w)

inductive Command where
  /-- Shows the tree of one file. -/
  | ast (file : String) (kind : SourceKind) (json : Bool)
  /-- Parses the sources under a path. -/
  | check (path : String) (kind : SourceKind)
  /-- Shows which rules were tried on one file. -/
  | trace (file : String) (kind : SourceKind) (rule : Option String)
  /-- Lists the grammars, or one of them. -/
  | grammars (name : Option String)
deriving DecidableEq, Repr

structure Request where
  color : ColorMode
  command : Command
deriving DecidableEq, Repr

/-! ## Tables -/

def programName : String := "cminor-parse"

def programVersion : String := "0.1.0"

def colorOption : OptionSpec where
  long := "color"
  role := .value {
    name := "COLOR"
    fallback := some ColorMode.auto.word
    choices := ColorMode.all.map ColorMode.word }
  about := "When to color output"

def kindOption (about : String) : OptionSpec where
  long := "kind"
  role := .value {
    name := "KIND"
    fallback := some (kindWord .unit)
    choices := SourceKind.all.map kindWord }
  about

def helpOption : OptionSpec where
  long := "help"
  short := some 'h'
  role := .help
  about := "Print help"

def fileOperand (about : String) : OperandSpec where
  slot := { name := "FILE", blank := false }
  required := true
  about

def astCommand : CommandSpec where
  name := "ast"
  about := "Parse a file and print its syntax tree"
  operands := [fileOperand "The path to the cminor source file to parse"]
  options := [
    colorOption,
    kindOption "What the file contains",
    { long := "json", role := .flag, about := "Print the tree as JSON" },
    helpOption]

def checkCommand : CommandSpec where
  name := "check"
  about := "Parse every `.cm` file under a path and report the ones that fail"
  operands := [{
    slot := { name := "PATH", fallback := some ".", blank := false }
    required := false
    about := "A source file or a directory to search" }]
  options := [colorOption, kindOption "What the files contain", helpOption]

def traceCommand : CommandSpec where
  name := "trace"
  about := "Show the rule-level trace of a parse"
  operands := [fileOperand "The path to the cminor source file to trace"]
  options := [
    colorOption,
    kindOption "What the file contains",
    { long := "rule", role := .value { name := "RULE" }, about := "Only show events of this rule" },
    helpOption]

def grammarsCommand : CommandSpec where
  name := "grammars"
  about := "Print the linked cminor grammars"
  operands := [{
    slot := { name := "NAME" }
    required := false
    about := "Only print the grammar with this qualified name" }]
  options := [colorOption, helpOption]

def helpCommand : CommandSpec where
  name := "help"
  about := "Print this message or the help of the given subcommand(s)"
  operands := [{
    slot := { name := "COMMAND" }
    required := false
    several := true
    about := "Print help for the subcommand(s)" }]

def commands : List CommandSpec :=
  [astCommand, checkCommand, traceCommand, grammarsCommand, helpCommand]

def program : CommandSpec where
  name := programName
  about := "Parses cminor sources and inspects the cminor grammars."
  options := [
    colorOption,
    helpOption,
    { long := "version", short := some 'V', role := .version, about := "Print version" }]

/-- Help of the program or of one of its commands. -/
def helpText (c : CommandSpec) : String :=
  if c = program then c.help [programName] commands else c.help [programName, c.name] []

/-! ## Requests -/

def command? (name : String) : Option CommandSpec := commands.find? (·.name == name)

/-- The command that help is asked for by name. Commands have no commands of their own. -/
def helpTopic : List String → Halt
  | [] => .help program
  | [name] =>
    match command? name with
    | some c => .help c
    | none => .usage (.commandUnknown name)
  | name :: next :: _ => .usage (.commandUnknown (if (command? name).isSome then next else name))

/-- The first operand without a value that needs one. -/
def Reading.missing? (r : Reading) (c : CommandSpec) : Option OperandSpec :=
  (c.operands.drop r.operands.length).find? (·.required)

def Reading.kind (r : Reading) : SourceKind :=
  ((r.settings.lookup "kind").bind kindOfWord?).getD .unit

def Reading.color? (r : Reading) : Option ColorMode :=
  (r.settings.lookup "color").bind ColorMode.ofWord?

def Reading.command? (r : Reading) (name : String) : Option Command :=
  match name, r.operands with
  | "ast", [file] => some (.ast file r.kind (r.settings.lookup "json").isSome)
  | "check", operands => some (.check (operands.head?.getD ".") r.kind)
  | "trace", [file] => some (.trace file r.kind (r.settings.lookup "rule"))
  | "grammars", operands => some (.grammars operands.head?)
  | _, _ => none

/-- What the arguments ask for. A color chosen after the command counts more than one before it. -/
def request (arguments : List String) : Except Halt Request := do
  let (outer, command) ← scan program (commands.map (·.name)) arguments {}
  match command with
  | none => .error (.usage .commandMissing)
  | some (name, rest) =>
    if name = helpCommand.name then .error (helpTopic rest)
    else match command? name with
    | none => .error (.usage (.commandUnknown name))
    | some c =>
      let (own, _) ← scan c [] rest {}
      match own.missing? c with
      | some operand => .error (.usage (.operandMissing operand.title))
      | none =>
        let outer ← outer.settle
        match own.command? name with
        | some command => .ok { color := (own.color? <|> outer.color?).getD .auto, command }
        | none => .error (.usage (.commandUnknown name))

end PegFront.Cli
