/-!
# Files

A program sees files through `Files`: the content of a file, and what lies below a path. `Store` keeps
files in memory; a path leads through it name by name, from the working directory or, after a slash,
from the root.
-/

namespace PegFront.Cli

inductive FileError where
  | system (description : String) (number : Nat)
  /-- The content is not the UTF-8 form of a text. -/
  | notText
deriving DecidableEq, Repr

namespace FileError

def notFound : FileError := .system "No such file or directory" 2

def notDirectory : FileError := .system "Not a directory" 20

def isDirectory : FileError := .system "Is a directory" 21

def message : FileError → String
  | .system description number => description ++ " (os error " ++ toString number ++ ")"
  | .notText => "stream did not contain valid UTF-8"

end FileError

/-- A file, or else a directory that cannot be read, with the names that lead to it. -/
structure Entry where
  names : List String
  error : Option FileError := none
deriving DecidableEq, Repr

/-- What a path leads to. -/
inductive Place where
  | file
  /-- All entries below, in no order. -/
  | directory (entries : List Entry)
deriving DecidableEq, Repr

structure Files (m : Type → Type) where
  read : String → m (Except FileError ByteArray)
  locate : String → m (Except FileError Place)

namespace Files

variable {m : Type → Type} [Monad m]

def readText (files : Files m) (path : String) : m (Except FileError String) := do
  match ← files.read path with
  | .error e => return .error e
  | .ok bytes =>
    match String.fromUTF8? bytes with
    | some text => return .ok text
    | none => return .error .notText

end Files

/-! ## Sources below a path -/

/-- A path with names after it, all divided by slashes. -/
def joinPath (path : String) (names : List String) : String :=
  path ++ (if path.endsWith "/" then "" else "/") ++ "/".intercalate names

/-- What follows the last dot of a name, unless the name starts with that dot. -/
def extension? (name : String) : Option String :=
  let reversed := name.toList.reverse
  match reversed.dropWhile (· != '.') with
  | _ :: _ :: _ => some (String.ofList (reversed.takeWhile (· != '.')).reverse)
  | _ => none

def sourceExtension : String := "cm"

def Entry.isSource (e : Entry) : Bool :=
  (e.names.getLast?.bind extension?) == some sourceExtension

/-- Depth first, and by name within a directory: the order of the lists of names. -/
def Entry.before (a b : Entry) : Bool := !List.lex b.names a.names fun x y => x < y

/-! ## Files in memory -/

/-- Files by the names that lead to them from the root. -/
structure Store where
  files : List (List String × ByteArray)
  directory : List String

namespace Store

/-- Files by their paths below the working directory. -/
def ofFiles (directory : List String) (files : List (String × ByteArray)) : Store where
  files := files.map fun (path, content) => (directory ++ (path.splitOn "/").filter (· != ""), content)
  directory

def content? (s : Store) (names : List String) : Option ByteArray := s.files.lookup names

/-- A directory holds a file, at some depth, or is on the way to the working directory. -/
def isDirectory (s : Store) (names : List String) : Bool :=
  names.isPrefixOf s.directory || s.files.any fun (file, _) => names.isPrefixOf file && names != file

/-- Follows names from a place that exists. -/
def walk (s : Store) : List String → List String → Except FileError (List String)
  | here, [] => .ok here
  | here, name :: rest =>
    if !s.isDirectory here then .error .notDirectory
    else if name = "" || name = "." then s.walk here rest
    else if name = ".." then s.walk here.dropLast rest
    else
      let next := here ++ [name]
      if s.isDirectory next || (s.content? next).isSome then s.walk next rest else .error .notFound

def resolve (s : Store) (path : String) : Except FileError (List String) :=
  s.walk (if path.startsWith "/" then [] else s.directory) (path.splitOn "/")

def read (s : Store) (path : String) : Except FileError ByteArray := do
  match s.content? (← s.resolve path) with
  | some content => .ok content
  | none => .error .isDirectory

def locate (s : Store) (path : String) : Except FileError Place := do
  let names ← s.resolve path
  if (s.content? names).isSome then return .file
  return .directory (s.files.filterMap fun (file, _) =>
    if names.isPrefixOf file then some { names := file.drop names.length } else none)

/-- A store as a program sees it: looking into it has no effect. -/
def access (s : Store) : Files Id where
  read := s.read
  locate := s.locate

end Store

end PegFront.Cli
