import Tableau.Document

/-!
# Documents as JSON

Each item of a list and each field of a record stands on a line of its own, indented by two spaces
per level; an empty list is `[]`. In a string the quotation mark, the backslash and the control
characters below the space are escaped, and no other character is.
-/

namespace Tableau

namespace Json

/-- Two spaces per level. -/
def indentation (depth : Nat) : String := String.ofList (List.replicate (2 * depth) ' ')

def hexPair (n : Nat) : List Char := [Nat.digitChar (n / 16), Nat.digitChar (n % 16)]

/-- A character inside a string literal. -/
def escape (c : Char) : List Char :=
  if c = '\x22' then ['\\', '\x22']
  else if c = '\\' then ['\\', '\\']
  else if c = '\x08' then ['\\', 'b']
  else if c = '\t' then ['\\', 't']
  else if c = '\n' then ['\\', 'n']
  else if c = '\x0c' then ['\\', 'f']
  else if c = '\r' then ['\\', 'r']
  else if c.toNat < 0x20 then ['\\', 'u', '0', '0'] ++ hexPair c.toNat
  else [c]

def quote (text : String) : String :=
  "\"" ++ String.ofList (text.toList.flatMap escape) ++ "\""

end Json

namespace Document

/-- Rows between brackets, each on a line of its own. -/
def jsonBlock (depth : Nat) (left right : String) (rows : List String) : String :=
  match rows with
  | [] => left ++ right
  | _ =>
    left ++ "\n" ++ ",\n".intercalate (rows.map (Json.indentation (depth + 1) ++ ·)) ++ "\n" ++
      Json.indentation depth ++ right

mutual

def jsonAt (depth : Nat) : Document → String
  | number n => n.toNat.repr
  | text s => Json.quote s
  | list items => jsonBlock depth "[" "]" (jsonItems (depth + 1) items)
  | record fields => jsonBlock depth "\x7b" "\x7d" (jsonFields (depth + 1) fields)

def jsonItems (depth : Nat) : List Document → List String
  | [] => []
  | item :: items => jsonAt depth item :: jsonItems depth items

def jsonFields (depth : Nat) : List (String × Document) → List String
  | [] => []
  | (name, item) :: fields =>
    (Json.quote name ++ ": " ++ jsonAt depth item) :: jsonFields depth fields

end

/-- A document as a JSON text, with a line feed at its end. -/
def json (document : Document) : String := document.jsonAt 0 ++ "\n"

end Document

end Tableau
