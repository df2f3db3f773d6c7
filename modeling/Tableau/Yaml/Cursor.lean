import Tableau.Yaml

/-!
# A place in a YAML text

A `Cursor` is what is left of a text, the column of its first character, and the nodes that have
been given a name so far. `Cursor.toContent` moves over what separates tokens: blanks, comments and
line breaks. Where a line has been left the column is what tells blocks apart, so the move also says
whether it has crossed the end of a line.

Texts are cleaned first (`clean?`): no line ends with a carriage return, and no character is left
that a YAML text must not have.
-/

namespace Tableau.Yaml

/-- A place in a text, and the named nodes before it. -/
structure Cursor where
  column : Nat
  rest : List Char
  anchors : List (String × Yaml)

def isBlank (c : Char) : Bool := c = ' ' || c = '\t'

/-- Whether a text ends here, or goes on with a blank or a line break. -/
def atSpace : List Char → Bool
  | [] => true
  | c :: _ => isBlank c || isBreak c

/-- The characters that a YAML text may have. -/
def isAllowed (c : Char) : Bool :=
  let n := c.toNat
  n = 0x09 || n = 0x0a || n = 0x0d || (0x20 ≤ n && n ≤ 0x7e) || n = 0x85 ||
    (0xa0 ≤ n && n ≤ 0xfffd) || 0x10000 ≤ n

/-- The text with a line feed for every carriage return, line feed or both, and for every next line.
The other line breaks are characters of the text and stay as they are. -/
def unifyBreaks : List Char → List Char
  | '\r' :: '\n' :: rest => '\n' :: unifyBreaks rest
  | c :: rest => (if c = '\r' || c = '\u0085' then '\n' else c) :: unifyBreaks rest
  | [] => []

/-- A text without a byte order mark at its front and with unified line breaks, if it may be read. -/
def clean? (text : List Char) : Option (List Char) :=
  let text :=
    match text with
    | '\ufeff' :: rest => rest
    | _ => text
  if text.all isAllowed then some (unifyBreaks text) else none

/-- What `toContent` moves over, given whether a tab is a blank here and whether it is one on the lines
below, whether the place is in a comment, and whether the end of a line has been crossed. -/
def skipSeparation (tabs tabsBelow inComment crossed : Bool) (column : Nat) :
    List Char → Bool × Nat × List Char
  | [] => (crossed, column, [])
  | c :: rest =>
    if isBreak c then skipSeparation tabsBelow tabsBelow false true 0 rest
    else if inComment || c = ' ' || (c = '\t' && tabs) then
      skipSeparation tabs tabsBelow inComment crossed (column + 1) rest
    else if c = '#' then skipSeparation tabs tabsBelow true crossed (column + 1) rest
    else (crossed, column, c :: rest)

namespace Cursor

def advance (cursor : Cursor) (count : Nat) : Cursor :=
  { cursor with column := cursor.column + count, rest := cursor.rest.drop count }

def jump (cursor : Cursor) (rest : List Char) : Cursor :=
  { cursor with column := cursor.column + (cursor.rest.length - rest.length), rest }

def skipBlanks (cursor : Cursor) : Cursor :=
  cursor.advance (cursor.rest.takeWhile isBlank).length

/-- The cursor at the next token, and whether that is on another line. Tabs indent nothing, so where
blocks are told apart by indentation there is none at the start of a line. -/
def toContent (cursor : Cursor) (tabs tabsBelow : Bool) : Bool × Cursor :=
  let (crossed, column, rest) := skipSeparation tabs tabsBelow false false cursor.column cursor.rest
  (crossed, { cursor with column, rest })

/-- The cursor at the next token of a flow collection, where line breaks are blanks. -/
def toFlowContent (cursor : Cursor) : Cursor := (cursor.toContent true true).2

/-- The cursor at the next token behind a node of a block collection. -/
def toBlockContent (cursor : Cursor) : Cursor := (cursor.toContent true false).2

/-- The cursor itself, if nothing but a comment is left of the line. -/
def atLineEnd? (cursor : Cursor) : Option Cursor :=
  let (crossed, next) := cursor.toContent true false
  if crossed || next.rest.isEmpty then some cursor else none

/-- The cursor with a name for a node. -/
def withAnchor (cursor : Cursor) (name : Option String) (node : Yaml) : Cursor :=
  match name with
  | some name => { cursor with anchors := (name, node) :: cursor.anchors }
  | none => cursor

end Cursor

end Tableau.Yaml
