import Tableau.Numeral
import Tableau.Yaml.Cursor

/-!
# Reading YAML scalars

The four ways in which a scalar is written. A plain or quoted scalar may go on over several lines;
there the blanks around a line break are dropped, one line feed becomes a space, and of several
breaks all but a line feed in front are kept (`Folding`). A block scalar keeps its lines, apart from their
indentation, and folds them only if it is written with `>`.
-/

namespace Tableau.Yaml

/-- The text of line breaks with nothing but blanks between them. A line feed in front is not kept; a
break of another kind is. -/
def foldBreaks : List Char → List Char
  | ['\n'] => [' ']
  | '\n' :: breaks => breaks
  | breaks => breaks

/-! ## Plain scalars -/

def isFlowMark (c : Char) : Bool := c ∈ [',', '[', ']', '\x7b', '\x7d']

/-- Whether a plain scalar can start with a text. -/
def startsPlain (inFlow : Bool) : List Char → Bool
  | [] => false
  | c :: rest =>
    if c = '-' then !atSpace rest
    else if c = '?' || c = ':' then !inFlow && !atSpace rest
    else !(atSpace [c]) &&
      c ∉ [',', '[', ']', '\x7b', '\x7d', '#', '&', '*', '!', '|', '>', '\x27', '\x22', '%', '@',
        '\x60']

/-- The part of a plain scalar on one line, given whether a blank stands before it. Blanks at its end
are still there. -/
def plainPart (inFlow afterBlank : Bool) : List Char → List Char
  | [] => []
  | c :: rest =>
    if isBreak c || (c = ':' && atSpace rest) || (inFlow && isFlowMark c) || (c = '#' && afterBlank)
    then []
    else c :: plainPart inFlow (isBlank c) rest

/-- Whether a colon stands right before a mark that has a meaning in a flow collection. -/
def hasFlowColon : List Char → Bool
  | [] => false
  | c :: rest => (c = ':' && rest.head?.any fun d => d = '?' || isFlowMark d) || hasFlowColon rest

def trimEnd (text : List Char) : List Char := (text.reverse.dropWhile isBlank).reverse

/-- Blanks and line breaks at the start of a text: the breaks, given those before it, and the column
and the text behind them. A tab to the left of `floor` is no indentation, and no answer is given for
it. -/
def skipBreaks (floor : Nat) (breaks : List Char) (column : Nat) :
    List Char → Option (List Char × Nat × List Char)
  | [] => some (breaks, column, [])
  | c :: rest =>
    if isBreak c then skipBreaks floor (breaks ++ [c]) 0 rest
    else if c = '\t' && !breaks.isEmpty && column < floor then none
    else if isBlank c then skipBreaks floor breaks (column + 1) rest
    else some (breaks, column, c :: rest)

/-- The lines of a plain scalar: its text and the cursor behind it. A further line belongs to it if
it is not to the left of `floor` and is no comment. -/
def plainLines (fuel : Nat) (inFlow : Bool) (floor : Nat) (text : List Char) (cursor : Cursor) :
    Option (List Char × Cursor) :=
  match fuel with
  | 0 => none
  | fuel + 1 => do
    let part := trimEnd (plainPart inFlow false cursor.rest)
    if inFlow && hasFlowColon (cursor.rest.take (part.length + 1)) then none
    let cursor := cursor.advance part.length
    let text := text ++ part
    let (breaks, column, rest) ← skipBreaks floor [] cursor.column cursor.rest
    if breaks.isEmpty || (!inFlow && column < floor) || rest.head? = some '#' ||
        (plainPart inFlow false rest).isEmpty then
      return (text, cursor)
    else
      plainLines fuel inFlow floor (text ++ foldBreaks breaks) { cursor with column, rest }

def plainScalar? (inFlow : Bool) (floor : Nat) (cursor : Cursor) : Option (Yaml × Cursor) :=
  if startsPlain inFlow cursor.rest then do
    let (text, cursor) ← plainLines (cursor.rest.length + 1) inFlow floor [] cursor
    return (.scalar none true (String.ofList text), cursor)
  else none

/-! ## Quoted scalars -/

/-- A piece of a quoted scalar. -/
inductive Piece
  /-- A character as it stands, which may be part of a line break. -/
  | plain (c : Char)
  /-- A character that an escape denotes. -/
  | escaped (c : Char)
  /-- An escaped line break, which is dropped. -/
  | continuation

/-- The folding of a quoted scalar: the text so far from its end to its start, the blanks behind it
that may have to be dropped, and the line breaks behind it. -/
structure Folding where
  text : List Char
  blanks : List Char
  breaks : List Char
  /-- Whether the first of the breaks has been escaped. -/
  continued : Bool

namespace Folding

/-- The folding with its blanks and breaks turned into text. -/
def flush (folding : Folding) : Folding where
  text :=
    (if folding.continued then folding.breaks.reverse
      else if folding.breaks.isEmpty then folding.blanks
      else (foldBreaks folding.breaks).reverse) ++ folding.text
  blanks := []
  breaks := []
  continued := false

/-- The folding with another piece. -/
def add (folding : Folding) : Piece → Folding
  | .plain c =>
    if isBreak c then { folding with blanks := [], breaks := folding.breaks ++ [c] }
    else if isBlank c then
      if folding.breaks.isEmpty && !folding.continued then
        { folding with blanks := c :: folding.blanks }
      else folding
    else { folding.flush with text := c :: folding.flush.text }
  | .escaped c => { folding.flush with text := c :: folding.flush.text }
  | .continuation => { folding.flush with continued := true }

end Folding

def foldPieces (pieces : List Piece) : List Char :=
  (pieces.foldl Folding.add ⟨[], [], [], false⟩).flush.text.reverse

def singlePieces : List Char → Option (List Piece × List Char)
  | [] => none
  | '\x27' :: '\x27' :: rest => do
    let (pieces, rest) ← singlePieces rest
    return (.escaped '\x27' :: pieces, rest)
  | '\x27' :: rest => some ([], rest)
  | c :: rest => do
    let (pieces, rest) ← singlePieces rest
    return (.plain c :: pieces, rest)

def unescape? : Char → Option Char
  | '0' => some '\x00'
  | 'a' => some '\x07'
  | 'b' => some '\x08'
  | 't' | '\t' => some '\t'
  | 'n' => some '\n'
  | 'v' => some '\x0b'
  | 'f' => some '\x0c'
  | 'r' => some '\r'
  | 'e' => some '\x1b'
  | ' ' => some ' '
  | '\x22' => some '\x22'
  | '/' => some '/'
  | '\\' => some '\\'
  | 'N' => some '\u0085'
  | '_' => some '\u00a0'
  | 'L' => some '\u2028'
  | 'P' => some '\u2029'
  | _ => none

/-- The character that hexadecimal digits denote. -/
def hexCharacter? (digits : List Char) : Option Char := do
  let n ← Numeral.readRadix? 16 digits
  if n.isValidChar then some (Char.ofNat n) else none

def doublePieces : List Char → Option (List Piece × List Char)
  | [] => none
  | '\x22' :: rest => some ([], rest)
  | '\\' :: 'x' :: a :: b :: rest => do
    let c ← hexCharacter? [a, b]
    let (pieces, rest) ← doublePieces rest
    return (.escaped c :: pieces, rest)
  | '\\' :: 'u' :: a :: b :: c :: d :: rest => do
    let c ← hexCharacter? [a, b, c, d]
    let (pieces, rest) ← doublePieces rest
    return (.escaped c :: pieces, rest)
  | '\\' :: 'U' :: a :: b :: c :: d :: e :: f :: g :: h :: rest => do
    let c ← hexCharacter? [a, b, c, d, e, f, g, h]
    let (pieces, rest) ← doublePieces rest
    return (.escaped c :: pieces, rest)
  | '\\' :: c :: rest => do
    let piece ← if isBreak c then some .continuation else (unescape? c).map .escaped
    let (pieces, rest) ← doublePieces rest
    return (piece :: pieces, rest)
  | c :: rest => do
    let (pieces, rest) ← doublePieces rest
    return (.plain c :: pieces, rest)

def quotedScalar? (cursor : Cursor) : Option (Yaml × Cursor) := do
  let (pieces, rest) ←
    match cursor.rest with
    | '\x27' :: rest => singlePieces rest
    | '\x22' :: rest => doublePieces rest
    | _ => none
  return (.scalar none false (String.ofList (foldPieces pieces)), cursor.jump rest)

/-! ## Block scalars -/

/-- What becomes of the line breaks at the end of a block scalar. -/
inductive Ending
  | strip
  | clip
  | keep
deriving DecidableEq

/-- The header of a block scalar: whether it folds its lines, its ending, and its indentation
relative to that of its parent, where it is given. -/
structure BlockHeader where
  folds : Bool
  ending : Ending
  indent : Option Nat

def Ending.ofMark? : Char → Option Ending
  | '-' => some .strip
  | '+' => some .keep
  | _ => none

def indentDigit? (c : Char) : Option Nat :=
  if '1' ≤ c ∧ c ≤ '9' then some (c.toNat - '0'.toNat) else none

/-- The marks in a header, in either order, and the text behind them. -/
def headerMarks (folds : Bool) (text : List Char) : BlockHeader × List Char :=
  match text with
  | a :: b :: rest =>
    match Ending.ofMark? a, indentDigit? b, indentDigit? a, Ending.ofMark? b with
    | some ending, some indent, _, _ => (⟨folds, ending, some indent⟩, rest)
    | _, _, some indent, some ending => (⟨folds, ending, some indent⟩, rest)
    | some ending, none, _, _ => (⟨folds, ending, none⟩, b :: rest)
    | _, _, some indent, none => (⟨folds, .clip, some indent⟩, b :: rest)
    | none, _, none, _ => (⟨folds, .clip, none⟩, text)
  | [a] =>
    match Ending.ofMark? a, indentDigit? a with
    | some ending, _ => (⟨folds, ending, none⟩, [])
    | _, some indent => (⟨folds, .clip, some indent⟩, [])
    | none, none => (⟨folds, .clip, none⟩, text)
  | [] => (⟨folds, .clip, none⟩, [])

/-- The lines of a text, each with the break at its end. -/
def linesOf (text : List Char) : List (List Char) :=
  text.foldr
    (fun c lines =>
      if isBreak c then [c] :: lines
      else
        match lines with
        | [] => [[c]]
        | line :: lines => (c :: line) :: lines)
    []

theorem flatten_linesOf (text : List Char) : (linesOf text).flatten = text := by
  induction text with
  | nil => rfl
  | cons c rest ih =>
    by_cases h : isBreak c
    · simpa [linesOf, h] using ih
    · cases hl : linesOf rest with
      | nil => simp_all [linesOf]
      | cons line lines => simp_all [linesOf]

def leadingSpaces (line : List Char) : Nat := (line.takeWhile (· = ' ')).length

/-- The indentation of a block scalar that gives none: the widest of its first empty lines and its
first other line, but at least `least`. A tab is no indentation, and no answer is given for it. -/
def detectIndent? (least : Nat) : List (List Char) → Option Nat
  | [] => some least
  | line :: lines =>
    let indent := max least (leadingSpaces line)
    match line.drop (leadingSpaces line) with
    | [] => some indent
    | c :: _ =>
      if c = '\t' then none else if isBreak c then detectIndent? indent lines else some indent

/-- The state of a block scalar between two lines. -/
structure BlockText where
  text : List Char
  /-- The break at the end of the last line with text, if it has ended. -/
  ending : List Char
  /-- The breaks of the empty lines since. -/
  empties : List Char
  /-- Whether that line starts with a blank, which keeps it from being folded. -/
  spaced : Bool

/-- A block scalar with another line of text and the break at its end. -/
def BlockText.addLine (folds : Bool) (block : BlockText) (line ending : List Char) : BlockText :=
  let spaced := line.head?.any isBlank
  let joint :=
    if folds && block.ending = ['\n'] && !block.spaced && !spaced then
      if block.empties.isEmpty then [' '] else []
    else block.ending
  { text := block.text ++ joint ++ block.empties ++ line
    ending
    empties := []
    spaced }

/-- The lines of a block scalar at an indentation, and the lines that are left. -/
def blockLines (folds : Bool) (indent : Nat) (block : BlockText) :
    List (List Char) → Option (BlockText × List (List Char))
  | [] => some (block, [])
  | line :: lines =>
    let spaces := min indent (leadingSpaces line)
    let body := (line.drop spaces).takeWhile (!isBreak ·)
    let ending := (line.drop spaces).dropWhile (!isBreak ·)
    if body.isEmpty then
      blockLines folds indent { block with empties := block.empties ++ ending } lines
    else if spaces = indent then
      blockLines folds indent (block.addLine folds body ending) lines
    else if body.head? = some '\t' then none
    else some (block, line :: lines)

/-- The text of a block scalar whose last line break and last empty lines are kept or not. -/
def BlockText.close (block : BlockText) : Ending → List Char
  | .strip => block.text
  | .clip => block.text ++ block.ending
  | .keep => block.text ++ block.ending ++ block.empties

/-- A block scalar whose parent is to the left of `floor`. The cursor behind it is at the end of its
last line. -/
def blockScalar? (floor : Nat) (cursor : Cursor) : Option (Yaml × Cursor) := do
  let (header, rest) ←
    match cursor.rest with
    | '|' :: rest => some (headerMarks false rest)
    | '>' :: rest => some (headerMarks true rest)
    | _ => none
  let _ ← ({ cursor with rest } : Cursor).atLineEnd?
  let lines := (linesOf rest).drop 1
  let indent ←
    match header.indent with
    | some indent => some (floor - 1 + indent)
    | none => detectIndent? (max floor 1) lines
  let (block, left) ← blockLines header.folds indent ⟨[], [], [], false⟩ lines
  let rest := if left.isEmpty then [] else '\n' :: left.flatten
  return (.scalar none false (String.ofList (block.close header.ending)), { cursor with rest })

end Tableau.Yaml
