import PegFront.Cli.Arguments
import PegFront.Cli.Files
import PegFront.Cli.Report
import PegFront.Diagnostic

/-!
# Running commands

A run takes the arguments to what is written on the two channels and the exit code: 0 if all went
well, 1 if a source or a name was at fault, 2 if the arguments were.
-/

namespace PegFront.Cli

open Cminor (SourceKind)

structure Output where
  code : Nat := 0
  out : String := ""
  err : String := ""
deriving DecidableEq, Repr

def warning (message : String) : String := "[" ++ programName ++ "] " ++ message ++ "\n"

def unreadable (path : String) (e : FileError) : String :=
  warning ("cannot read " ++ path ++ ": " ++ e.message)

def stopReport (colored : Bool) (source : String) : Stop → String
  | .error e => (e.report source.toList).render colored
  | .exhausted => warning "parsing does not come to an end"

def Halt.output : Halt → Output
  | .usage e =>
    { code := 2
      err := "error: " ++ e.message ++ "\n\nFor more information, try '--help'.\n" }
  | .help c => { out := helpText c }
  | .version => { out := programName ++ " " ++ programVersion ++ "\n" }

/-! ## Commands -/

variable {m : Type → Type} [Monad m]

def ast (files : Files m) (colored : Bool) (path : String) (kind : SourceKind) (json : Bool) :
    m Output := do
  match ← files.readText path with
  | .error e => return { code := 1, err := unreadable path e }
  | .ok source =>
    match (Cminor.parse kind source { file := path } {}).1 with
    | .error stop => return { code := 1, err := stopReport colored source stop }
    | .ok v => return { out := if json then treeDocument v else (treeReport v).render colored }

def trace (files : Files m) (colored : Bool) (path : String) (kind : SourceKind)
    (rule : Option String) : m Output := do
  match ← files.readText path with
  | .error e => return { code := 1, err := unreadable path e }
  | .ok source =>
    let (outcome, session) := Cminor.parse kind source { file := path, trace := true } {}
    let out := match session.trace with
      | some t => (traceReport t rule).render colored
      | none => ""
    match outcome with
    | .error stop => return { code := 1, out, err := stopReport colored source stop }
    | .ok _ => return { out }

def grammars (colored : Bool) (name : Option String) : Output :=
  match Cminor.domain with
  | .error e => { code := 1, err := stopReport colored "" (.error e) }
  | .ok d =>
    match name with
    | none => { out := (grammarsReport d d.grammars).render colored }
    | some name =>
      match d.grammar? name with
      | some g => { out := (grammarsReport d [g]).render colored }
      | none =>
        let e : ParseError := { cause := .unknownGrammar name "the command line", phase := "cli" }
        { code := 1, err := stopReport colored "" (.error e) }

/-- Warnings about what cannot be read below a path, and the sources there: the path itself if it is a
file, whatever its name. -/
def discover (files : Files m) (path : String) : m (List String × List String) := do
  let skipping (path : String) (e : FileError) :=
    warning ("skipping unreadable entry: IO error for operation on " ++ path ++ ": " ++ e.message)
  match ← files.locate path with
  | .error e => return ([skipping path e], [])
  | .ok .file => return ([], [path])
  | .ok (.directory entries) =>
    let entries := entries.mergeSort Entry.before
    let warnings := entries.filterMap fun entry =>
      entry.error.map (skipping (joinPath path entry.names))
    let sources := entries.filter fun entry => entry.error.isNone && entry.isSource
    return (warnings, sources.map fun entry => joinPath path entry.names)

/-- What is wrong with a source, if anything. -/
def complaint? (files : Files m) (colored : Bool) (kind : SourceKind) (index : Nat) (path : String) :
    m (Option String) := do
  match ← files.readText path with
  | .error e => return some (unreadable path e)
  | .ok source =>
    match (Cminor.parse kind source { file := path, fileIndex := index } {}).1 with
    | .error stop => return some (stopReport colored source stop)
    | .ok _ => return none

def check (files : Files m) (colored : Bool) (path : String) (kind : SourceKind) : m Output := do
  let (warnings, sources) ← discover files path
  let warned := String.join warnings
  if sources.isEmpty then
    return { err := warned ++ warning ("no ." ++ sourceExtension ++ " files found under " ++ path) }
  let complaints ← sources.zipIdx.filterMapM fun (path, index) =>
    complaint? files colored kind index path
  let failed := complaints.length
  return {
    code := if failed = 0 then 0 else 1
    out := "checked " ++ toString sources.length ++ " file(s): " ++
      toString (sources.length - failed) ++ " ok, " ++ toString failed ++ " failed\n"
    err := warned ++ String.join complaints }

/-- Runs the program. `terminal` tells whether colors are shown when nothing is said about them. -/
def run (files : Files m) (terminal : Bool) (arguments : List String) : m Output :=
  match request arguments with
  | .error halt => return halt.output
  | .ok r =>
    let colored := match r.color with
      | .auto => terminal
      | .always => true
      | .never => false
    match r.command with
    | .ast file kind json => ast files colored file kind json
    | .check path kind => check files colored path kind
    | .trace file kind rule => trace files colored file kind rule
    | .grammars name => return grammars colored name

end PegFront.Cli
