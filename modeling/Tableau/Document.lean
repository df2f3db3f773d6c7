/-!
# Documents

A `Document` is data in the form in which the machine formats write it: numbers, texts, lists, and
records with named fields in a fixed order. Each format has a printer for documents.

Reading goes the other way round through `DataNode`. A format has nodes of its own, which can hold
more than documents do, and the class says how such a node answers a reader that expects a number,
a text, a word out of several, a list or a record. So one typed reader serves every format.
-/

namespace Tableau

/-- Data as the machine formats write it. -/
inductive Document
  | number (number : UInt32)
  | text (text : String)
  | list (items : List Document)
  | record (fields : List (String × Document))

/-- The nodes of a data format, as a typed reader sees them. Every answer is `none` where the node
does not hold what the reader expects. -/
class DataNode (ν : Type) where
  /-- The 32-bit number that a node holds. -/
  number? : ν → Option UInt32
  /-- The text that a node holds. -/
  text? : ν → Option String
  /-- The word of a fixed set of words that a node holds. -/
  word? : ν → Option String
  /-- The items of a list. -/
  items? : ν → Option (List ν)
  /-- The values of the fields with the given names, in the order of the names; `none` stands for a
  field that is missing. Other fields are passed over, but none of the named ones may come twice. -/
  fields? : List String → ν → Option (List (Option ν))

/-- The values of named fields out of an association list, if none of the names comes twice. -/
def selectFields {ν : Type} (names : List String) (entries : List (String × ν)) :
    Option (List (Option ν)) :=
  names.mapM fun name =>
    match entries.filter (·.1 = name) with
    | [] => some none
    | [entry] => some (some entry.2)
    | _ => none

end Tableau
