import Tableau.Numeral
import Tableau.Document

/-!
# JSON values

The values that a JSON text denotes. A number is kept as it is written, since `1` is a 32-bit
number and `1.0` is not. A string literal can denote half of a surrogate pair, which is no text;
`Json.illFormed` stands for such a string, and for an object that has one as a key. A reader passes
over it where it does not look and refuses it where it does.
-/

namespace Tableau

inductive Json
  | null
  | boolean (value : Bool)
  | number (numeral : String)
  | string (text : String)
  | array (items : List Json)
  | object (members : List (String × Json))
  /-- A value with a string of its own that denotes no text. -/
  | illFormed

namespace Json

/-- A record is an object, or an array that has a value for every field and no other. -/
def fields? (names : List String) : Json → Option (List (Option Json))
  | object members => selectFields names members
  | array items => if items.length = names.length then some (items.map some) else none
  | _ => none

/-- A word of a set is a string, or an object with the word as its only key and null behind it. -/
def word? : Json → Option String
  | string text => some text
  | object [(key, null)] => some key
  | _ => none

/-- The 32-bit number that a number literal denotes: digits alone. -/
def number? : Json → Option UInt32
  | number numeral => (Numeral.read? numeral.toList).bind Numeral.word32?
  | _ => none

def text? : Json → Option String
  | string text => some text
  | _ => none

def items? : Json → Option (List Json)
  | array items => some items
  | _ => none

instance : DataNode Json where
  number? := number?
  text? := text?
  word? := word?
  items? := items?
  fields? := fields?

end Json

end Tableau
