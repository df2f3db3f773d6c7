import Tableau.CommandLine.FileTree
import Tableau.CommandLine.Options
import Tableau.Program.Outline
import Tableau.Scene.Render
import Tableau.Source
import Tableau.Token.Listing

/-!
# Running the command

The command reads a program, runs the stages that the request needs, and writes the result of the
last of them to standard output or to a file. Nothing is written before all these stages have
succeeded, and no later stage is run.

What the command needs from the machine is a `Host`. The command is written once for every host:
`World.host` is a host inside a model of the machine, and the program itself supplies a real one.
-/

namespace Tableau.CommandLine

def versionLine : String := "painttalk 0.1.0\n"

def helpText : String :=
  "Turn PaintTalk sentences into a scene description\n\n" ++
  "Usage: painttalk [OPTIONS] <FILE>\n\n" ++
  "Arguments:\n" ++
  "  <FILE>  Program file to run, or `-` for stdin\n\n" ++
  "Options:\n" ++
  "  -f, --format <FORMAT>        Output format for the scene (overrides the config file)\n" ++
  "      --emit <EMIT>            Stop after this stage and print its result\n" ++
  "  -o, --output <OUTPUT>        Write the result here instead of stdout\n" ++
  "      --log-level <LOG_LEVEL>  Log filter (overrides the config file)\n" ++
  "  -h, --help                   Print help\n" ++
  "  -V, --version                Print version\n"

structure Outcome where
  code : Nat
  stdout : String
  stderr : String
deriving DecidableEq, Repr

/-- Why a run fails. -/
inductive Failure
  | input (error : SystemError)
  | reading (file : String) (error : SystemError)
  | program (fault : Fault)
  | writing (file : String) (error : SystemError)
deriving DecidableEq, Repr

def Failure.message : Failure → String
  | input error => "failed to read stdin: " ++ error.message
  | reading file error => "failed to read " ++ file ++ ": " ++ error.message
  | program fault => fault.text
  | writing file error => "failed to write " ++ file ++ ": " ++ error.message

/-- The machine that the command runs on. -/
structure Host (m : Type → Type) where
  /-- The text of the settings file, if there is one that can be read. -/
  settingsText : m (Option String)
  /-- All of standard input. -/
  inputText : m (Except SystemError String)
  /-- The text of a file. -/
  fileText : String → m (Except SystemError String)
  /-- Create the folders above a file where they are missing. -/
  createParents : String → m (Except SystemError Unit)
  /-- Write a file. -/
  putFile : String → String → m (Except SystemError Unit)

/-- The result of a stage as text. No later stage is run. -/
def Emit.render (emit : Emit) (format : Format) (source : String) : Except Fault String :=
  match emit with
  | .tokens => do return Token.listing (← Source.tokens source)
  | .tree => do return (← Source.program source).outline.text
  | .scene => do return (← Source.scene source).render format

section

variable {m : Type → Type} [Monad m] (host : Host m)

def readProgram (file : String) : m (Except Failure String) :=
  if file = "-" then do return (← host.inputText).mapError Failure.input
  else do return (← host.fileText file).mapError (Failure.reading file)

/-- Write a result to its file, and answer with what is left for standard output. -/
def deliver (output : Option String) (text : String) : m (Except Failure String) :=
  match output with
  | none => pure (.ok text)
  | some file => do
    match ← host.createParents file with
    | .error error => return .error (.writing file error)
    | .ok () =>
      match ← host.putFile file text with
      | .error error => return .error (.writing file error)
      | .ok () => return .ok ""

/-- Run the stages that the options need; the answer is what goes to standard output. -/
def perform (settings : Settings) (options : Options) : m (Except Failure String) := do
  match ← readProgram host options.file with
  | .error failure => return .error failure
  | .ok source =>
    match options.emit.render (options.format.getD settings.format) source with
    | .error fault => return .error (.program fault)
    | .ok text => deliver host options.output text

/-- Run the command with the given arguments. Settings that cannot be read count as none. -/
def run (arguments : List String) : m Outcome :=
  match Request.ofArguments arguments with
  | .error error => pure ⟨2, "", "error: " ++ error.message ++ "\n"⟩
  | .ok .version => pure ⟨0, versionLine, ""⟩
  | .ok .help => pure ⟨0, helpText, ""⟩
  | .ok (.run options) => do
    let settings := (Settings.ofFile? (← host.settingsText)).getD .default
    match ← perform host settings options with
    | .ok stdout => return ⟨0, stdout, ""⟩
    | .error failure => return ⟨1, "", "error: " ++ failure.message ++ "\n"⟩

end

/-- A model of the machine: the settings file, the bytes of standard input, and the files. -/
structure World where
  settings : Option String
  input : ByteArray
  files : FileTree

/-- The text that bytes encode, if they do. -/
def textOfBytes (bytes : ByteArray) : Except SystemError String :=
  match String.fromUTF8? bytes with
  | some text => .ok text
  | none => .error .notText

/-- The machine inside its model. -/
def World.host : Host (StateM World) where
  settingsText := do return (← get).settings
  inputText := do return textOfBytes (← get).input
  fileText file := do return (← get).files.read (.ofText file)
  createParents file := modifyGet fun world =>
    let (files, result) := world.files.createFolders (Path.ofText file).parent
    (result, { world with files })
  putFile file text := modifyGet fun world =>
    match world.files.write (.ofText file) text with
    | .ok files => (.ok (), { world with files })
    | .error error => (.error error, world)

end Tableau.CommandLine
