import Tableau.Json

/-!
# Reading JSON

`Json.ofText?` reads a JSON text. Blanks are the space, the tab, the line feed and the carriage
return; a numeral has no leading zero; a string holds no control character below the space; nothing
but blanks may follow the value.

The readers of the three nested constructs call one another, at most twice between two characters
that they read; `ofText?` counts its fuel by that.
-/

namespace Tableau.Json

def isBlank (c : Char) : Bool := c = ' ' || c = '\t' || c = '\n' || c = '\r'

def skipBlanks (text : List Char) : List Char := text.dropWhile isBlank

/-- The character that a backslash and a letter denote. -/
def unescape? : Char → Option Char
  | '\x22' => some '\x22'
  | '\\' => some '\\'
  | '/' => some '/'
  | 'b' => some '\x08'
  | 'f' => some '\x0c'
  | 'n' => some '\n'
  | 'r' => some '\r'
  | 't' => some '\t'
  | _ => none

def isHighSurrogate (unit : Nat) : Bool := 0xd800 ≤ unit && unit < 0xdc00

def isLowSurrogate (unit : Nat) : Bool := 0xdc00 ≤ unit && unit < 0xe000

/-- The text of code units that are given from the last to the first, put in front of `text`. Every
half of a surrogate pair must stand next to its other half. -/
def joinUnits (text : List Char) : List Nat → Option (List Char)
  | [] => some text
  | [unit] =>
    if isLowSurrogate unit || isHighSurrogate unit then none
    else some (Char.ofNat unit :: text)
  | unit :: high :: units =>
    if isLowSurrogate unit then
      if isHighSurrogate high then
        joinUnits (Char.ofNat (0x10000 + (high - 0xd800) * 0x400 + (unit - 0xdc00)) :: text) units
      else none
    else if isHighSurrogate unit then none
    else joinUnits (Char.ofNat unit :: text) (high :: units)

/-- The code units of a string literal behind its opening mark, and the text behind its closing
mark. The units come from the last to the first, in front of `units`. -/
def stringUnits (units : List Nat) : List Char → Option (List Nat × List Char)
  | [] => none
  | '\x22' :: rest => some (units, rest)
  | '\\' :: 'u' :: a :: b :: c :: d :: rest =>
    match Numeral.readRadix? 16 [a, b, c, d] with
    | some unit => stringUnits (unit :: units) rest
    | none => none
  | '\\' :: c :: rest =>
    match unescape? c with
    | some c => stringUnits (c.toNat :: units) rest
    | none => none
  | c :: rest => if c.toNat < 0x20 then none else stringUnits (c.toNat :: units) rest

/-- The text of a string literal behind its opening mark, or `none` for it where its units are no
text, and what follows the literal. -/
def stringText? (text : List Char) : Option (Option String × List Char) := do
  let (units, rest) ← stringUnits [] text
  return ((joinUnits [] units).map String.ofList, rest)

/-- A sign or a mark at the start of a text, if it is there, and the rest. -/
def optional (accepts : Char → Bool) : List Char → List Char × List Char
  | [] => ([], [])
  | c :: rest => if accepts c then ([c], rest) else ([], c :: rest)

def digits? (text : List Char) : Option (List Char × List Char) :=
  match text.takeWhile Char.isDigit with
  | [] => none
  | digits => some (digits, text.dropWhile Char.isDigit)

def fraction? (text : List Char) : Option (List Char × List Char) :=
  match text with
  | '.' :: rest => do
    let (digits, rest) ← digits? rest
    return ('.' :: digits, rest)
  | _ => some ([], text)

def exponent? (text : List Char) : Option (List Char × List Char) :=
  match text with
  | c :: rest =>
    if c = 'e' || c = 'E' then do
      let (sign, rest) := optional (fun c => c = '+' || c = '-') rest
      let (digits, rest) ← digits? rest
      return (c :: sign ++ digits, rest)
    else some ([], text)
  | [] => some ([], [])

def numeral? (text : List Char) : Option (List Char × List Char) := do
  let (sign, rest) := optional (· = '-') text
  let (whole, rest) ← digits? rest
  if whole.length > 1 && whole.head? = some '0' then none
  let (fraction, rest) ← fraction? rest
  let (exponent, rest) ← exponent? rest
  return (sign ++ whole ++ fraction ++ exponent, rest)

def afterWord? (word : String) (text : List Char) : Option (List Char) :=
  if word.toList.isPrefixOf text then some (text.drop word.length) else none

/-- A value that is no list and no record, and the rest. -/
def atom? (text : List Char) : Option (Json × List Char) :=
  match afterWord? "null" text, afterWord? "true" text, afterWord? "false" text with
  | some rest, _, _ => some (.null, rest)
  | _, some rest, _ => some (.boolean true, rest)
  | _, _, some rest => some (.boolean false, rest)
  | none, none, none => do
    let (numeral, rest) ← numeral? text
    return (.number (String.ofList numeral), rest)

/-- An object with keys that may denote no text. -/
def ofMembers (members : List (Option String × Json)) : Json :=
  match members.mapM (fun member => member.1.map (·, member.2)) with
  | some members => .object members
  | none => .illFormed

mutual

def readValue? (fuel : Nat) (text : List Char) : Option (Json × List Char) :=
  match fuel with
  | 0 => none
  | fuel + 1 =>
    match skipBlanks text with
    | '\x22' :: rest => do
      let (text, rest) ← stringText? rest
      return (text.elim .illFormed .string, rest)
    | '[' :: rest =>
      match skipBlanks rest with
      | ']' :: rest => some (.array [], rest)
      | rest => do
        let (items, rest) ← readItems? fuel rest
        return (.array items, rest)
    | '\x7b' :: rest =>
      match skipBlanks rest with
      | '\x7d' :: rest => some (.object [], rest)
      | rest => do
        let (members, rest) ← readMembers? fuel rest
        return (ofMembers members, rest)
    | rest => atom? rest

/-- The items of an array up to its closing bracket, and the text behind it. -/
def readItems? (fuel : Nat) (text : List Char) : Option (List Json × List Char) :=
  match fuel with
  | 0 => none
  | fuel + 1 => do
    let (item, rest) ← readValue? fuel text
    match skipBlanks rest with
    | ',' :: rest => do
      let (items, rest) ← readItems? fuel rest
      return (item :: items, rest)
    | ']' :: rest => return ([item], rest)
    | _ => none

/-- The members of an object up to its closing brace, and the text behind it. -/
def readMembers? (fuel : Nat) (text : List Char) :
    Option (List (Option String × Json) × List Char) :=
  match fuel with
  | 0 => none
  | fuel + 1 =>
    match skipBlanks text with
    | '\x22' :: rest => do
      let (key, rest) ← stringText? rest
      match skipBlanks rest with
      | ':' :: rest =>
        let (item, rest) ← readValue? fuel rest
        match skipBlanks rest with
        | ',' :: rest => do
          let (members, rest) ← readMembers? fuel rest
          return ((key, item) :: members, rest)
        | '\x7d' :: rest => return ([(key, item)], rest)
        | _ => none
      | _ => none
    | _ => none

end

def ofText? (text : String) : Option Json :=
  let characters := text.toList
  match readValue? (2 * characters.length + 2) characters with
  | some (value, rest) => if (skipBlanks rest).isEmpty then some value else none
  | none => none

end Tableau.Json
