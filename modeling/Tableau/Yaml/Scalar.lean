import Tableau.Yaml

/-!
# How a text is written as a YAML scalar

A text is written plain where it can be. It is quoted where the plain form would read as something
else, and it is a literal block where it has line feeds. Not every text can stand in every form:
`plainFits`, `singleFits` and `literalFits` say which can, and the double-quoted form, which has
escapes, is there for the rest.
-/

namespace Tableau.Yaml.Scalar

/-- The forms of a scalar. -/
inductive Style
  | plain
  | singleQuoted
  | doubleQuoted
  | literal
deriving DecidableEq, Repr

/-- The characters that may stand in a scalar without an escape: the line feed, ASCII from the space
to the tilde, and the rest of the basic plane but for its controls, byte order marks and
noncharacters. -/
def isPrintable (c : Char) : Bool :=
  let n := c.toNat
  n = 0x0a || (0x20 ≤ n && n ≤ 0x7e) ||
    (0xa0 ≤ n && n ≤ 0xfffd && n ≠ 0xfeff)

/-- Whether a text ends or goes on with a blank, a line break or the null character. -/
def endsWord : List Char → Bool
  | [] => true
  | c :: _ => c = ' ' || c = '\t' || c = '\x00' || isBreak c

/-- The characters that give the start of a scalar another meaning. -/
def startMarks : List Char :=
  ['#', ',', '[', ']', '\x7b', '\x7d', '&', '*', '!', '|', '>', '\x27', '\x22', '%', '@', '\x60']

/-- Whether a text that goes on has a colon before a blank or a number sign behind one. -/
def hasInnerMark : List Char → Bool
  | [] => false
  | c :: rest =>
    (c = ':' && endsWord rest) || (endsWord [c] && rest.head? = some '#') || hasInnerMark rest

/-- Whether a text has a mark that would end a plain scalar or give it another meaning. -/
def hasMark : List Char → Bool
  | '-' :: '-' :: '-' :: _ => true
  | '.' :: '.' :: '.' :: _ => true
  | c :: rest =>
    startMarks.contains c || ((c = '-' || c = '?') && endsWord rest) || hasInnerMark (c :: rest)
  | [] => false

/-- Whether the first of two neighbours anywhere in a text satisfies the one test and the second the
other. -/
def hasPair (first second : Char → Bool) : List Char → Bool
  | a :: b :: rest => (first a && second b) || hasPair first second (b :: rest)
  | _ => false

def hasSpaceBreak (text : List Char) : Bool := hasPair (· = ' ') isBreak text

def hasBreakSpace (text : List Char) : Bool := hasPair isBreak (· = ' ') text

/-- Whether a text keeps every character and every break outside double quotes. -/
def fitsUnescaped (text : List Char) : Bool := text.all isPrintable && !hasSpaceBreak text

def literalFits (text : List Char) : Bool := fitsUnescaped text && text.getLast? ≠ some ' '

def singleFits (text : List Char) : Bool := fitsUnescaped text && !hasBreakSpace text

def plainFits (text : List Char) : Bool :=
  singleFits text && !text.any isBreak && text.head? ≠ some ' ' && text.getLast? ≠ some ' ' &&
    !hasMark text

def style (text : String) : Style :=
  let characters := text.toList
  if characters.contains '\n' then
    if literalFits characters then .literal else .doubleQuoted
  else if Plain.isText text && plainFits characters then .plain
  else if singleFits characters then .singleQuoted
  else .doubleQuoted

def indentation (indent : Nat) : List Char := List.replicate indent ' '

/-- A text with its lines indented, given whether a line starts at its front. -/
def indentLines (indent : Nat) (lineStart : Bool) : List Char → List Char
  | [] => []
  | c :: rest =>
    if isBreak c then c :: indentLines indent true rest
    else if lineStart then indentation indent ++ c :: indentLines indent false rest
    else c :: indentLines indent false rest

/-- The text between single quotes: a quote is doubled, and a new line is indented. -/
def singleQuoted (indent : Nat) (text : List Char) : List Char :=
  let body := indentLines indent false (text.flatMap fun c => if c = '\x27' then [c, c] else [c])
  let close := if text.getLast?.any isBreak then indentation indent else []
  '\x27' :: body ++ close ++ ['\x27']

def hex (width n : Nat) : List Char :=
  let digits := (Nat.toDigits 16 n).map Char.toUpper
  List.replicate (width - digits.length) '0' ++ digits

def escape (c : Char) : List Char :=
  let letter? : Option Char :=
    match c.toNat with
    | 0x00 => some '0'
    | 0x07 => some 'a'
    | 0x08 => some 'b'
    | 0x09 => some 't'
    | 0x0a => some 'n'
    | 0x0b => some 'v'
    | 0x0c => some 'f'
    | 0x0d => some 'r'
    | 0x1b => some 'e'
    | 0x22 => some '\x22'
    | 0x5c => some '\\'
    | 0x85 => some 'N'
    | 0x2028 => some 'L'
    | 0x2029 => some 'P'
    | _ => none
  match letter? with
  | some letter => ['\\', letter]
  | none =>
    if isPrintable c then [c]
    else if c.toNat ≤ 0xff then '\\' :: 'x' :: hex 2 c.toNat
    else if c.toNat ≤ 0xffff then '\\' :: 'u' :: hex 4 c.toNat
    else '\\' :: 'U' :: hex 8 c.toNat

def doubleQuoted (text : List Char) : List Char := '\x22' :: text.flatMap escape ++ ['\x22']

/-- The header of a literal block: its indentation where the text starts with a blank or a break, and
what becomes of the line breaks at its end. -/
def literalHeader (text : List Char) : List Char :=
  let indent := if text.head?.any (fun c => c = ' ' || isBreak c) then ['2'] else []
  let ending :=
    match text.reverse with
    | last :: rest =>
      if !isBreak last then ['-'] else if rest.head?.all isBreak then ['+'] else []
    | [] => ['-']
  '|' :: indent ++ ending

/-- The text as a literal block, up to the end of its last line. -/
def literal (indent : Nat) (text : List Char) : List Char :=
  literalHeader text ++ '\n' :: indentLines indent true text ++
    if text.getLast?.any isBreak then [] else ['\n']

def render (indent : Nat) (text : String) : String :=
  let characters := text.toList
  String.ofList <|
    match style text with
    | .plain => characters ++ ['\n']
    | .singleQuoted => singleQuoted indent characters ++ ['\n']
    | .doubleQuoted => doubleQuoted characters ++ ['\n']
    | .literal => literal indent characters

end Tableau.Yaml.Scalar
