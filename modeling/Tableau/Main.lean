import Tableau.CommandLine.Execute

/-!
# The command

The machine itself as a host, and the entry point.
-/

namespace Tableau.CommandLine

def SystemError.ofError : IO.Error → SystemError
  | .noFileOrDirectory .. => .notFound
  | .alreadyExists .. => .alreadyExists
  | .inappropriateType .. => .isFolder
  | error => .other (toString error)

/-- The result of an action, with its error as a value. -/
def attempt {α : Type} (action : IO α) : IO (Except SystemError α) := do
  try
    return .ok (← action)
  catch error =>
    return .error (.ofError error)

def readTextFile (file : String) : IO (Except SystemError String) := do
  return (← attempt (IO.FS.readBinFile file)).bind textOfBytes

/-- The bytes that are left of a stream. -/
partial def readRest (stream : IO.FS.Stream) (bytes : ByteArray) : IO ByteArray := do
  let chunk ← stream.read 65536
  if chunk.isEmpty then return bytes else readRest stream (bytes ++ chunk)

def parentText (file : String) : String :=
  let parent := (Path.ofText file).parent
  (if parent.absolute then "/" else "") ++ "/".intercalate parent.components

def machine : Host IO where
  settingsText := do
    match ← IO.getEnv "HOME" with
    | none => return none
    | some home => return (← readTextFile (home ++ "/.painttalk/config.yaml")).toOption
  inputText := do
    let bytes ← attempt (do readRest (← IO.getStdin) ByteArray.empty)
    return bytes.bind textOfBytes
  fileText := readTextFile
  createParents file := do
    let folder := parentText file
    if folder.isEmpty || folder = "/" then return .ok ()
    else attempt (IO.FS.createDirAll folder)
  putFile file text := attempt (IO.FS.writeFile file text)

end Tableau.CommandLine

/-- Run the command on the machine itself. -/
def main (arguments : List String) : IO UInt32 := do
  let outcome ← Tableau.CommandLine.run Tableau.CommandLine.machine arguments
  IO.print outcome.stdout
  IO.eprint outcome.stderr
  return outcome.code.toUInt32
