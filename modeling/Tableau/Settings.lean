import Tableau.Scene.Document
import Tableau.Yaml.Printer
import Tableau.Yaml.Reader

/-!
# Settings

The settings are the form in which scenes are written and the filter for log messages. They are read
from a YAML record in which either may be missing, and fields of other names are passed over.
-/

namespace Tableau

inductive Format
  | text
  | yaml
  | json
deriving DecidableEq, Repr, Inhabited

namespace Format

def word : Format → String
  | text => "text"
  | yaml => "yaml"
  | json => "json"

def ofWord? (word : String) : Option Format := [text, yaml, json].find? (·.word = word)

@[simp] theorem ofWord?_word (format : Format) : ofWord? format.word = some format := by
  cases format <;> decide

end Format

structure Settings where
  format : Format
  logLevel : String
deriving DecidableEq, Repr, Inhabited

namespace Settings

def default : Settings := ⟨.text, "warn"⟩

/-- The names of the fields, in the order in which they are written. -/
def fieldNames : List String := ["format", "log_level"]

def document (settings : Settings) : Document :=
  .record (fieldNames.zip [.text settings.format.word, .text settings.logLevel])

def ofNode? {ν : Type} [DataNode ν] (node : ν) : Option Settings := do
  match ← DataNode.fields? fieldNames node with
  | [format, logLevel] =>
    return {
      format := ←
        match format with
        | some format => do Format.ofWord? (← DataNode.word? format)
        | none => some default.format
      logLevel := ←
        match logLevel with
        | some logLevel => DataNode.text? logLevel
        | none => some default.logLevel }
  | _ => none

/-- The settings in the text of a file, or the default ones where there is no file. -/
def ofFile? : Option String → Option Settings
  | none => some default
  | some text => do ofNode? (← Yaml.ofText? text)

def yaml (settings : Settings) : String := settings.document.yaml

end Settings

end Tableau
