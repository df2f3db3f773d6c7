import Tableau.Settings

/-!
# Command-line arguments

The arguments are taken from left to right. An option has a long name, and two options have a short
one; its value is attached to the name or is the next argument, which must not look like an option.
Every option and the one file may be given once. The first wrong argument ends the reading, and so
does a request for the version or for help; `--` makes file names of all arguments behind it.
-/

namespace Tableau.CommandLine

/-- The stage whose result is written. -/
inductive Emit
  | tokens
  | tree
  | scene
deriving DecidableEq, Repr, Inhabited

def Emit.word : Emit → String
  | tokens => "tokens"
  | tree => "tree"
  | scene => "scene"

def Emit.ofWord? (word : String) : Option Emit := [tokens, tree, scene].find? (·.word = word)

/-- The options that take a value. -/
inductive Flag
  | format
  | emit
  | output
  | logLevel
deriving DecidableEq, Repr

namespace Flag

def long : Flag → String
  | format => "format"
  | emit => "emit"
  | output => "output"
  | logLevel => "log-level"

def ofLong? (name : String) : Option Flag := [format, emit, output, logLevel].find? (·.long = name)

def ofShort? : Char → Option Flag
  | 'f' => some format
  | 'o' => some output
  | _ => none

end Flag

/-- Why arguments are refused. -/
inductive UsageError
  | unknownOption (argument : String)
  | unexpectedFile (argument : String)
  | missingFile
  | missingValue (flag : Flag)
  | needlessValue (argument : String)
  | invalidValue (flag : Flag) (value : String)
  | emptyFile
  | repeated (flag : Flag)
deriving DecidableEq, Repr

def UsageError.message : UsageError → String
  | unknownOption argument => "unexpected argument '" ++ argument ++ "' found"
  | unexpectedFile argument => "unexpected argument '" ++ argument ++ "' found"
  | missingFile => "the following required arguments were not provided: <FILE>"
  | missingValue flag => "a value is required for '--" ++ flag.long ++ "' but none was supplied"
  | needlessValue argument => "unexpected value in '" ++ argument ++ "' found"
  | invalidValue flag value => "invalid value '" ++ value ++ "' for '--" ++ flag.long ++ "'"
  | emptyFile => "a value is required for '<FILE>' but none was supplied"
  | repeated flag => "the argument '--" ++ flag.long ++ "' cannot be used multiple times"

/-- What the arguments have said so far. -/
structure Draft where
  file : Option String
  format : Option Format
  emit : Option Emit
  output : Option String
  logLevel : Option String
deriving DecidableEq, Repr

/-- What a run is to do. -/
structure Options where
  /-- The program file, where `-` is standard input. -/
  file : String
  /-- The form of the scene, where it is not that of the settings. -/
  format : Option Format
  emit : Emit
  /-- The file to write to, where it is not standard output. -/
  output : Option String
  logLevel : Option String
deriving DecidableEq, Repr

/-- What the arguments ask for. -/
inductive Request
  | run (options : Options)
  | version
  | help
deriving DecidableEq, Repr

namespace Draft

def empty : Draft := ⟨none, none, none, none, none⟩

def setOption (draft : Draft) (flag : Flag) (value : String) : Except UsageError Draft :=
  match flag with
  | .format =>
    match draft.format, Format.ofWord? value with
    | some _, _ => .error (.repeated flag)
    | none, some format => .ok { draft with format := some format }
    | none, none => .error (.invalidValue flag value)
  | .emit =>
    match draft.emit, Emit.ofWord? value with
    | some _, _ => .error (.repeated flag)
    | none, some emit => .ok { draft with emit := some emit }
    | none, none => .error (.invalidValue flag value)
  | .output =>
    if draft.output.isSome then .error (.repeated flag)
    else if value.isEmpty then .error (.invalidValue flag value)
    else .ok { draft with output := some value }
  | .logLevel =>
    if draft.logLevel.isSome then .error (.repeated flag)
    else .ok { draft with logLevel := some value }

def setFile (draft : Draft) (file : String) : Except UsageError Draft :=
  if draft.file.isSome then .error (.unexpectedFile file)
  else if file.isEmpty then .error .emptyFile
  else .ok { draft with file := some file }

def close (draft : Draft) : Except UsageError Request :=
  match draft.file with
  | none => .error .missingFile
  | some file =>
    .ok (.run {
      file
      format := draft.format
      emit := draft.emit.getD .scene
      output := draft.output
      logLevel := draft.logLevel })

end Draft

inductive Argument
  /-- `--`, behind which no argument is an option. -/
  | divider
  /-- `--name` or `--name=value` -/
  | long (name : String) (value : Option String)
  /-- `-n`, `-nvalue` or `-n=value` -/
  | short (name : Char) (value : Option String)
  /-- Any other argument, the lone `-` included. -/
  | word

def Argument.of (argument : String) : Argument :=
  match argument.toList with
  | ['-', '-'] => divider
  | '-' :: '-' :: rest =>
    let name := String.ofList (rest.takeWhile (· ≠ '='))
    match rest.dropWhile (· ≠ '=') with
    | _ :: value => long name (some (String.ofList value))
    | [] => long name none
  | '-' :: name :: rest =>
    match rest with
    | [] => short name none
    | '=' :: value => short name (some (String.ofList value))
    | value => short name (some (String.ofList value))
  | _ => word

/-- Whether an argument can be the value of the option before it. -/
def isDetachedValue (argument : String) : Bool :=
  match Argument.of argument with
  | .word => true
  | _ => false

/-- Whether an argument asks for the version or for help, or else the option that it sets and the
value that is attached to it. -/
def readOption (argument : String) : Argument → Except UsageError (Request ⊕ Flag × Option String)
  | .long name value =>
    match name, Flag.ofLong? name with
    | "version", _ => if value.isSome then .error (.needlessValue argument) else .ok (.inl .version)
    | "help", _ => if value.isSome then .error (.needlessValue argument) else .ok (.inl .help)
    | _, some flag => .ok (.inr (flag, value))
    | _, none => .error (.unknownOption argument)
  | .short name value =>
    match name, Flag.ofShort? name with
    | 'V', _ => .ok (.inl .version)
    | 'h', _ => .ok (.inl .help)
    | _, some flag => .ok (.inr (flag, value))
    | _, none => .error (.unknownOption argument)
  | _ => .error (.unknownOption argument)

def readArguments (draft : Draft) : List String → Except UsageError Request
  | [] => draft.close
  | argument :: rest =>
    match Argument.of argument with
    | .divider => do (← rest.foldlM Draft.setFile draft).close
    | .word => do readArguments (← draft.setFile argument) rest
    | option =>
      match readOption argument option with
      | .error error => .error error
      | .ok (.inl request) => .ok request
      | .ok (.inr (flag, some value)) => do readArguments (← draft.setOption flag value) rest
      | .ok (.inr (flag, none)) =>
        match rest with
        | value :: rest =>
          if isDetachedValue value then do readArguments (← draft.setOption flag value) rest
          else .error (.missingValue flag)
        | [] => .error (.missingValue flag)

def Request.ofArguments (arguments : List String) : Except UsageError Request :=
  readArguments .empty arguments

end Tableau.CommandLine
