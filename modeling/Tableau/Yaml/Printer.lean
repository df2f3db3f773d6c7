import Tableau.Yaml.Scalar

/-!
# Documents as YAML

Records are block mappings and lists are block sequences. A list in a record stands at the
indentation of its field; a record in a record is indented by two more spaces, and so is everything
in a list. An empty list is `[]`. Field names are plain words.
-/

namespace Tableau.Document

def yamlIndentation (indent : Nat) : String := String.ofList (Yaml.Scalar.indentation indent)

/-- Rows of lines at an indentation, without that of the first row. -/
def yamlBlock (indent : Nat) (rows : List String) : String :=
  (yamlIndentation indent).intercalate rows

mutual

/-- What stands behind the colon of a field at the given indentation, to the end of its last
line. -/
def yamlField (indent : Nat) : Document → String
  | number n => " " ++ n.toNat.repr ++ "\n"
  | text s => " " ++ Yaml.Scalar.render (indent + 2) s
  | list [] => " []\n"
  | list (item :: items) =>
    "\n" ++ yamlIndentation indent ++ yamlBlock indent (yamlItems indent (item :: items))
  | record [] => " \x7b\x7d\n"
  | record (field :: fields) =>
    "\n" ++ yamlIndentation (indent + 2) ++
      yamlBlock (indent + 2) (yamlFields (indent + 2) (field :: fields))

/-- What stands behind the dash of an item at the given indentation, to the end of its last line. -/
def yamlItem (indent : Nat) : Document → String
  | number n => " " ++ n.toNat.repr ++ "\n"
  | text s => " " ++ Yaml.Scalar.render (indent + 2) s
  | list [] => " []\n"
  | list (item :: items) =>
    " " ++ yamlBlock (indent + 2) (yamlItems (indent + 2) (item :: items))
  | record [] => " \x7b\x7d\n"
  | record (field :: fields) =>
    " " ++ yamlBlock (indent + 2) (yamlFields (indent + 2) (field :: fields))

def yamlItems (indent : Nat) : List Document → List String
  | [] => []
  | item :: items => ("-" ++ yamlItem indent item) :: yamlItems indent items

def yamlFields (indent : Nat) : List (String × Document) → List String
  | [] => []
  | (name, item) :: fields =>
    (name ++ ":" ++ yamlField indent item) :: yamlFields indent fields

end

def yaml : Document → String
  | number n => n.toNat.repr ++ "\n"
  | text s => Yaml.Scalar.render 2 s
  | list [] => "[]\n"
  | list items => yamlBlock 0 (yamlItems 0 items)
  | record [] => "\x7b\x7d\n"
  | record fields => yamlBlock 0 (yamlFields 0 fields)

end Tableau.Document
