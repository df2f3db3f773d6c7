import Tableau.Numeral
import Tableau.Document

/-!
# YAML nodes

The nodes that a YAML text denotes. A scalar keeps its tag and whether it is written plain, since a
plain scalar may be a number, a truth value or null by its text alone (`Yaml.Plain`), while a quoted
one is always text. A plain scalar without any text stands for everything that is empty: null, the
list without items and the record without fields.
-/

namespace Tableau

inductive Yaml
  | scalar (tag : Option String) (plain : Bool) (text : String)
  | sequence (tag : Option String) (items : List Yaml)
  | mapping (tag : Option String) (entries : List (Yaml × Yaml))
  /-- An alias to a node that it is part of, which answers no reader. -/
  | cycle

namespace Yaml

def isBreak (c : Char) : Bool := c ∈ ['\n', '\r', '\u0085', '\u2028', '\u2029']

namespace Plain

def isNull (text : String) : Bool := text ∈ ["", "~", "null", "Null", "NULL"]

def isBoolean (text : String) : Bool :=
  text ∈ ["true", "True", "TRUE", "false", "False", "FALSE"]

/-- The text without one sign in front. -/
def dropSign : List Char → List Char
  | '+' :: text | '-' :: text => text
  | text => text

/-- Whether a text is a run of more than one digit with a zero in front. Such a run is no number,
with or without a sign. -/
def hasLeadingZero (text : List Char) : Bool :=
  match dropSign text with
  | '0' :: c :: digits => (c :: digits).all Char.isDigit
  | _ => false

/-- The number that a text without a sign denotes, in base ten or behind one of the marks `0x`, `0o`
and `0b`. -/
def magnitude? : List Char → Option Nat
  | '0' :: 'x' :: digits => Numeral.readRadix? 16 digits
  | '0' :: 'o' :: digits => Numeral.readRadix? 8 digits
  | '0' :: 'b' :: digits => Numeral.readRadix? 2 digits
  | digits => Numeral.readRadix? 10 digits

/-- The number that a plain scalar denotes if it is no negative one. -/
def natural? (text : String) : Option Nat :=
  if hasLeadingZero text.toList then none else magnitude? (Numeral.dropPlus text.toList)

/-- Whether a text reads as a whole number of 128 bits, with or without a sign. -/
def isInteger (text : String) : Bool :=
  match text.toList with
  | '-' :: digits => (magnitude? digits).any (· ≤ Nat.pow 2 127)
  | characters => (magnitude? (Numeral.dropPlus characters)).any (· < Nat.pow 2 128)

/-- Whether the number `mantissa * 10 ^ exponent` rounds to a finite number of double precision: it
is below the midpoint between the greatest of those and the next power of two. -/
def isFinite (mantissa : Nat) (exponent : Int) : Bool :=
  let bound := Nat.pow 2 1024 - Nat.pow 2 970
  let digits : Int := (Nat.toDigits 10 mantissa).length
  if mantissa = 0 ∨ digits + exponent ≤ 308 then true
  else if digits + exponent > 310 then false
  else mantissa * Nat.pow 10 exponent.toNat < bound * Nat.pow 10 (-exponent).toNat

/-- The exponent that the end of a decimal fraction denotes: none, or the mark `e` and a numeral that
may have a sign. -/
def exponent? : List Char → Option Int
  | [] => some 0
  | c :: rest =>
    if c = 'e' || c = 'E' then
      match rest with
      | '-' :: digits => (Numeral.read? digits).map fun n => -(n : Int)
      | digits => (Numeral.read? (Numeral.dropPlus digits)).map fun n => (n : Int)
    else none

/-- Whether a text without a sign is a decimal fraction that denotes a finite number. -/
def isFraction (text : List Char) : Bool :=
  let whole := text.takeWhile Char.isDigit
  let rest := text.dropWhile Char.isDigit
  let (part, rest) :=
    match rest with
    | '.' :: rest => (rest.takeWhile Char.isDigit, rest.dropWhile Char.isDigit)
    | _ => ([], rest)
  match exponent? rest with
  | none => false
  | some exponent =>
    !(whole ++ part).isEmpty &&
      isFinite (Numeral.value (whole ++ part)) (exponent - part.length)

/-- Whether a text reads as a number that need not be whole. -/
def isFloat (text : String) : Bool :=
  text ∈ [".inf", ".Inf", ".INF", "+.inf", "+.Inf", "+.INF", "-.inf", "-.Inf", "-.INF",
    ".nan", ".NaN", ".NAN"] ||
  isFraction (dropSign text.toList)

def isText (text : String) : Bool :=
  !(isNull text || isBoolean text || hasLeadingZero text.toList || isInteger text || isFloat text)

end Plain

def empty : Yaml := scalar none true ""

/-- The text of a scalar, whatever it reads as. -/
def text? : Yaml → Option String
  | scalar _ _ text => some text
  | _ => none

/-- The 32-bit number that a plain scalar denotes. -/
def number? : Yaml → Option UInt32
  | scalar _ true text => (Plain.natural? text).bind Numeral.word32?
  | _ => none

/-- The name in a tag that belongs to the document itself, such as `!circle`. -/
def localTag? (tag : Option String) : Option String :=
  match tag.map String.toList with
  | some ['!'] => some "!"
  | some ('!' :: name) => some (String.ofList name)
  | _ => none

/-- A word of a set is a scalar, or the tag of an empty one. -/
def word? : Yaml → Option String
  | scalar tag plain text =>
    match localTag? tag with
    | some name => if plain && Plain.isNull text then some name else none
    | none => some text
  | _ => none

def items? : Yaml → Option (List Yaml)
  | sequence _ items => some items
  | scalar _ true "" => some []
  | _ => none

/-- The values of named fields of a mapping, all of whose keys are scalars. -/
def fields? (names : List String) : Yaml → Option (List (Option Yaml))
  | mapping _ entries => do
    selectFields names (← entries.mapM fun entry => entry.1.text?.map (·, entry.2))
  | scalar _ true "" => some (names.map fun _ => none)
  | _ => none

instance : DataNode Yaml where
  number? := number?
  text? := text?
  word? := word?
  items? := items?
  fields? := fields?

def withTag (tag : Option String) : Yaml → Yaml
  | scalar _ plain text => scalar tag plain text
  | sequence _ items => sequence tag items
  | mapping _ entries => mapping tag entries
  | cycle => cycle

end Yaml

end Tableau
