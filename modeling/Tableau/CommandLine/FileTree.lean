/-!
# File trees

A model of the files that the command reads and writes: a tree of folders and text files with a
current folder. A path is followed one component at a time, and a component can be followed only
from a folder. The operations fail with the errors of the system calls that they stand for; those
that fail change nothing, except that `createFolders` may have created some of the folders.
-/

namespace Tableau.CommandLine

/-- Why the system refuses an operation on a file. -/
inductive SystemError
  | notFound
  | alreadyExists
  | notFolder
  | isFolder
  | nameTooLong
  | notText
  | other (message : String)
deriving DecidableEq, Repr

def SystemError.message : SystemError → String
  | notFound => "No such file or directory (os error 2)"
  | alreadyExists => "File exists (os error 17)"
  | notFolder => "Not a directory (os error 20)"
  | isFolder => "Is a directory (os error 21)"
  | nameTooLong => "File name too long (os error 36)"
  | notText => "stream did not contain valid UTF-8"
  | other message => message

/-- What a name in a tree stands for. -/
inductive Entry
  | folder
  | file (text : String)
deriving DecidableEq, Repr

/-- Folders and files by the names that lead to them from the root, and the current folder. -/
structure FileTree where
  current : List String
  entries : List (List String × Entry)
deriving Repr

/-- A path: whether it starts at the root, its components, and whether a slash stands at its end. -/
structure Path where
  absolute : Bool
  components : List String
  trailingSlash : Bool
deriving DecidableEq, Repr

namespace Path

/-- The path that a text denotes. Of several slashes in a row one counts. -/
def ofText (text : String) : Path where
  absolute := text.toList.head? = some '/'
  components := ((text.split '/').toList.map (·.toString)).filter (· ≠ "")
  trailingSlash := text.toList.getLast? = some '/'

/-- The components without those that stay where they are, except at the front. -/
def steps (path : Path) : List String :=
  match path.absolute, path.components with
  | false, first :: rest => first :: rest.filter (· ≠ ".")
  | _, components => components.filter (· ≠ ".")

def parent (path : Path) : Path where
  absolute := path.absolute
  components := path.steps.dropLast
  trailingSlash := false

end Path

namespace FileTree

def entry? (tree : FileTree) (names : List String) : Option Entry :=
  if names.isEmpty then some .folder else tree.entries.lookup names

def isFolder (tree : FileTree) (names : List String) : Bool := tree.entry? names = some .folder

def put (tree : FileTree) (names : List String) (entry : Entry) : FileTree :=
  { tree with entries := (names, entry) :: tree.entries.filter (·.1 ≠ names) }

def start (tree : FileTree) (path : Path) : List String :=
  if path.absolute then [] else tree.current

def isTooLong (name : String) : Bool := name.utf8ByteSize > 255

/-- Follow one component, which must lead somewhere. -/
def follow (tree : FileTree) (names : List String) (component : String) :
    Except SystemError (List String) :=
  if !tree.isFolder names then .error .notFolder
  else if component = "." then .ok names
  else if component = ".." then .ok names.dropLast
  else if isTooLong component then .error .nameTooLong
  else if (tree.entry? (names ++ [component])).isSome then .ok (names ++ [component])
  else .error .notFound

/-- The names that a path leads to. A slash at its end asks for a folder. -/
def resolve (tree : FileTree) (path : Path) : Except SystemError (List String) := do
  let names ← path.components.foldlM tree.follow (tree.start path)
  if path.trailingSlash && !tree.isFolder names then .error .notFolder else return names

def read (tree : FileTree) (path : Path) : Except SystemError String := do
  match tree.entry? (← tree.resolve path) with
  | some (.file text) => return text
  | some .folder => .error .isFolder
  | none => .error .notFound

/-- The folder that the last component of a path stands in, and that component. There is none where
the path leads to a folder by its form. -/
def place (tree : FileTree) (path : Path) : Except SystemError (Option (List String × String)) := do
  match path.components.getLast? with
  | none => return none
  | some name =>
    let names ← path.components.dropLast.foldlM tree.follow (tree.start path)
    if !tree.isFolder names then .error .notFolder
    else if name = "." || name = ".." then return none
    else if isTooLong name then .error .nameTooLong
    else return some (names, name)

/-- Write a file, and create it if it is missing. -/
def write (tree : FileTree) (path : Path) (text : String) : Except SystemError FileTree := do
  match ← tree.place path with
  | none => .error .isFolder
  | some (names, name) =>
    match tree.entry? (names ++ [name]) with
    | some .folder => .error .isFolder
    | some (.file _) =>
      if path.trailingSlash then .error .notFolder else return tree.put (names ++ [name]) (.file text)
    | none =>
      if path.trailingSlash then .error .isFolder else return tree.put (names ++ [name]) (.file text)

def createFolder (tree : FileTree) (path : Path) : Except SystemError FileTree := do
  match ← tree.place path with
  | none => .error .alreadyExists
  | some (names, name) =>
    if (tree.entry? (names ++ [name])).isSome then .error .alreadyExists
    else return tree.put (names ++ [name]) .folder

def leadsToFolder (tree : FileTree) (path : Path) : Bool :=
  match tree.resolve path with
  | .ok names => tree.isFolder names
  | .error _ => false

/-- The tree after an attempt to create a folder, which succeeds also where the folder exists. -/
def settle (tree : FileTree) (path : Path) (attempt : Except SystemError FileTree) :
    FileTree × Except SystemError Unit :=
  match attempt with
  | .ok tree => (tree, .ok ())
  | .error error => (tree, if tree.leadsToFolder path then .ok () else .error error)

/-- Create the folder to which the components lead, given from the last to the first, after the
folders above it where they are missing. -/
def createFoldersTo (tree : FileTree) (absolute : Bool) :
    List String → FileTree × Except SystemError Unit
  | [] => (tree, .ok ())
  | name :: above =>
    let path : Path := ⟨absolute, (name :: above).reverse, false⟩
    match tree.createFolder path with
    | .error .notFound =>
      match createFoldersTo tree absolute above with
      | (tree, .ok ()) => tree.settle path (tree.createFolder path)
      | failed => failed
    | attempt => tree.settle path attempt

/-- Create a folder and the folders above it where they are missing. -/
def createFolders (tree : FileTree) (path : Path) : FileTree × Except SystemError Unit :=
  tree.createFoldersTo path.absolute path.components.reverse

end FileTree

end Tableau.CommandLine
