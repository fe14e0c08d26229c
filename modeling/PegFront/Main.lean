import PegFront.Cli.Run

/-!
# The program on the files of the system
-/

namespace PegFront.Cli.Disk

/-- Error numbers may come with their sign changed. -/
def systemError (details : String) (code : UInt32) : FileError :=
  .system details.capitalize (if 2 * code.toNat < wordCount32 then code.toNat else wordCount32 - code.toNat)

def errorOf : IO.Error → FileError
  | .noFileOrDirectory _ code details => systemError details code
  | .permissionDenied _ code details => systemError details code
  | .inappropriateType _ code details => systemError details code
  | .invalidArgument _ code details => systemError details code
  | .resourceExhausted _ code details => systemError details code
  | .noSuchThing _ code details => systemError details code
  | .otherError code details => systemError details code
  | e => .system (toString e) 0

def caught {α : Type} (action : IO α) : IO (Except FileError α) := do
  try return .ok (← action)
  catch e => return .error (errorOf e)

/-- Every file below a directory. Links are not followed. -/
partial def below (path : String) (names : List String) : IO (List Entry) := do
  let here := (← IO.currentDir) / joinPath path names
  match ← caught here.readDir with
  | .error e => return [{ names, error := some e }]
  | .ok entries =>
    let found ← entries.toList.mapM fun entry => do
      let inner := names ++ [entry.fileName]
      match ← caught entry.path.symlinkMetadata with
      | .error e => return [{ names := inner, error := some e }]
      | .ok data =>
        match data.type with
        | .dir => below path inner
        | .file => return [{ names := inner }]
        | _ => return []
    return found.flatten

def locate (path : String) : IO (Except FileError Place) := do
  match ← caught (do ((← IO.currentDir) / path).metadata) with
  | .error e => return .error e
  | .ok data =>
    match data.type with
    | .dir => return .ok (.directory (← below path []))
    | _ => return .ok .file

def files : Files IO where
  read path := caught (IO.FS.readBinFile path)
  locate := locate

/-- Colors are shown by default on a terminal that is not a dumb one. -/
def terminal : IO Bool := do
  let refused := (← IO.getEnv "NO_COLOR").isSome
  match ← IO.getEnv "TERM" with
  | some kind => return kind != "dumb" && !refused
  | none => return false

end PegFront.Cli.Disk

open PegFront.Cli in
def main (arguments : List String) : IO UInt32 := do
  let output ← run Disk.files (← Disk.terminal) arguments
  IO.print output.out
  IO.eprint output.err
  return output.code.toUInt32
