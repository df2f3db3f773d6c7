import Tableau.Yaml.Reader.Scalar

/-!
# Reading YAML

`Yaml.ofText?` reads a YAML text that holds one document. Block collections are told apart by the
column they start at: a node belongs to a collection if it stands to the right of it, where a
sequence may also stand right below the key that it belongs to. Flow collections, scalars of every
form, tags, anchors and aliases are read; directives other than the version are not.

The readers call one another, at most five times between two characters that they read; `ofText?`
counts its fuel by that.
-/

namespace Tableau.Yaml

/-! ## Properties and aliases -/

def isAnchorCharacter (c : Char) : Bool := c.isAlphanum || c = '_' || c = '-'

/-- The name behind an anchor or alias mark, and the cursor behind it. -/
def anchorName? (cursor : Cursor) : Option (String × Cursor) :=
  let name := (cursor.rest.drop 1).takeWhile isAnchorCharacter
  let next := cursor.advance (name.length + 1)
  let ends := atSpace next.rest ||
    next.rest.head?.any (· ∈ ['?', ':', ',', ']', '\x7d', '%', '@', '\x60'])
  if name.isEmpty || !ends then none else some (String.ofList name, next)

/-- The tag that its written form denotes. -/
def resolveTag? (written : List Char) : Option String :=
  match written with
  | '!' :: '<' :: uri =>
    if uri.getLast? = some '>' && uri.length > 1 then some (String.ofList uri.dropLast) else none
  | '!' :: '!' :: name =>
    if name.isEmpty || name.contains '!' then none
    else some ("tag:yaml.org,2002:" ++ String.ofList name)
  | '!' :: name => if name.contains '!' then none else some (String.ofList written)
  | _ => none

/-- A tag at the cursor, and the cursor behind it. -/
def tag? (inFlow : Bool) (cursor : Cursor) : Option (String × Cursor) := do
  let written := cursor.rest.takeWhile fun c =>
    !isBlank c && !isBreak c && !(inFlow && isFlowMark c)
  return (← resolveTag? written, cursor.advance written.length)

/-- The tag and the anchor name in front of a node, in either order, and the cursor behind them. -/
def properties? (inFlow : Bool) (cursor : Cursor) :
    Option (Option String × Option String × Cursor) :=
  match cursor.rest with
  | '&' :: _ => do
    let (name, cursor) ← anchorName? cursor
    match cursor.skipBlanks.rest with
    | '!' :: _ =>
      let (tag, cursor) ← tag? inFlow cursor.skipBlanks
      return (some tag, some name, cursor)
    | _ => return (none, some name, cursor)
  | '!' :: _ => do
    let (tag, cursor) ← tag? inFlow cursor
    match cursor.skipBlanks.rest with
    | '&' :: _ =>
      let (name, cursor) ← anchorName? cursor.skipBlanks
      return (some tag, some name, cursor)
    | _ => return (some tag, none, cursor)
  | _ => some (none, none, cursor)

def startsProperties (text : List Char) : Bool := text.head?.any fun c => c = '&' || c = '!'

def alias? (cursor : Cursor) : Option (Yaml × Cursor) := do
  let (name, next) ← anchorName? cursor
  return (← next.anchors.lookup name, next)

/-- The cursor in front of a node that may have a name. Within the node that name is an alias to it. -/
def Cursor.enter (cursor : Cursor) (name : Option String) : Cursor := cursor.withAnchor name .cycle

/-- A node with its properties, and the cursor that knows its name. -/
def attach (tag name : Option String) (node : Yaml) (cursor : Cursor) : Yaml × Cursor :=
  let node := if tag.isSome then node.withTag tag else node
  (node, cursor.withAnchor name node)

/-! ## Flow collections -/

mutual

def flowNode? (fuel : Nat) (floor : Nat) (cursor : Cursor) : Option (Yaml × Cursor) :=
  match fuel with
  | 0 => none
  | fuel + 1 =>
    match cursor.rest with
    | '[' :: _ => do
      let (items, cursor) ← flowItems? fuel floor (cursor.advance 1)
      return (.sequence none items, cursor)
    | '\x7b' :: _ => do
      let (entries, cursor) ← flowEntries? fuel floor (cursor.advance 1)
      return (.mapping none entries, cursor)
    | '\x27' :: _ | '\x22' :: _ => quotedScalar? cursor
    | '*' :: _ => alias? cursor
    | ',' :: _ | ']' :: _ | '\x7d' :: _ | ':' :: _ => some (empty, cursor)
    | _ =>
      if startsProperties cursor.rest then do
        let (tag, name, cursor) ← properties? true cursor
        let (node, cursor) ← flowNode? fuel floor (cursor.enter name).toFlowContent
        return attach tag name node cursor
      else plainScalar? true floor cursor

/-- A key of a flow collection, and whether a question mark in front of it says that it is one. -/
def flowKey? (fuel : Nat) (floor : Nat) (cursor : Cursor) : Option (Bool × Yaml × Cursor) :=
  match fuel with
  | 0 => none
  | fuel + 1 =>
    match cursor.rest with
    | '?' :: _ => do
      let (key, cursor) ← flowNode? fuel floor (cursor.advance 1).toFlowContent
      return (true, key, cursor)
    | _ => do
      let (key, cursor) ← flowNode? fuel floor cursor
      return (false, key, cursor)

/-- What a colon at the cursor puts behind a key, or nothing if there is no colon. -/
def flowValue? (fuel : Nat) (floor : Nat) (cursor : Cursor) : Option (Option Yaml × Cursor) :=
  match fuel with
  | 0 => none
  | fuel + 1 =>
    match cursor.rest with
    | ':' :: _ => do
      let (value, cursor) ← flowNode? fuel floor (cursor.advance 1).toFlowContent
      return (some value, cursor)
    | _ => some (none, cursor)

/-- The items of a flow sequence up to its closing bracket, and the cursor behind it. A key that has
a question mark or a value is a mapping of its own. -/
def flowItems? (fuel : Nat) (floor : Nat) (cursor : Cursor) : Option (List Yaml × Cursor) :=
  match fuel with
  | 0 => none
  | fuel + 1 =>
    let cursor := cursor.toFlowContent
    match cursor.rest with
    | ']' :: _ => some ([], cursor.advance 1)
    | ',' :: _ => none
    | _ => do
      let (marked, key, cursor) ← flowKey? fuel floor cursor
      let (value, cursor) ← flowValue? fuel floor cursor.toFlowContent
      let item :=
        if marked || value.isSome then mapping none [(key, value.getD empty)] else key
      let cursor := cursor.toFlowContent
      match cursor.rest with
      | ',' :: _ =>
        let (items, cursor) ← flowItems? fuel floor (cursor.advance 1)
        return (item :: items, cursor)
      | ']' :: _ => return ([item], cursor.advance 1)
      | _ => none

/-- The entries of a flow mapping up to its closing brace, and the cursor behind it. A key without a
value has an empty one. -/
def flowEntries? (fuel : Nat) (floor : Nat) (cursor : Cursor) :
    Option (List (Yaml × Yaml) × Cursor) :=
  match fuel with
  | 0 => none
  | fuel + 1 =>
    let cursor := cursor.toFlowContent
    match cursor.rest with
    | '\x7d' :: _ => some ([], cursor.advance 1)
    | ',' :: _ => none
    | _ => do
      let (_, key, cursor) ← flowKey? fuel floor cursor
      let (value, cursor) ← flowValue? fuel floor cursor.toFlowContent
      let entry := (key, value.getD empty)
      let cursor := cursor.toFlowContent
      match cursor.rest with
      | ',' :: _ =>
        let (entries, cursor) ← flowEntries? fuel floor (cursor.advance 1)
        return (entry :: entries, cursor)
      | '\x7d' :: _ => return ([entry], cursor.advance 1)
      | _ => none

end

/-! ## Block collections -/

/-- Whether a text starts with a mark that stands alone. -/
def startsMark (mark : Char) : List Char → Bool
  | c :: rest => c = mark && atSpace rest
  | [] => false

def startsItem (text : List Char) : Bool := startsMark '-' text

/-- The part of a text that has been read between two places. -/
def readBetween (before after : Cursor) : List Char :=
  before.rest.take (before.rest.length - after.rest.length)

/-- The node that a key of a block mapping consists of. It may have properties. -/
def keyNode? (fuel : Nat) (cursor : Cursor) : Option (Yaml × Cursor) := do
  let (tag, name, start) ← properties? false cursor
  let start := if startsProperties cursor.rest then (start.enter name).skipBlanks else start
  let (node, next) ←
    match start.rest with
    | '[' :: _ | '\x7b' :: _ => flowNode? fuel 0 start
    | '\x27' :: _ | '\x22' :: _ => quotedScalar? start
    | '*' :: _ => alias? start
    | _ =>
      if startsPlain false start.rest then
        let part := trimEnd (plainPart false false start.rest)
        some (scalar none true (String.ofList part), start.advance part.length)
      else none
  return attach tag name node next

/-- A key at the cursor that is followed by a colon on the same line, and the cursor behind the
colon. -/
def implicitKey? (fuel : Nat) (cursor : Cursor) : Option (Yaml × Cursor) := do
  let (key, next) ← keyNode? fuel cursor
  let next := next.skipBlanks
  match next.rest with
  | ':' :: rest =>
    if atSpace rest && !(readBetween cursor next).any isBreak then return (key, next.advance 1)
    else none
  | _ => none

mutual

/-- The node behind an indicator. It is on the same line, where it can be a block collection only if
`compact` says so, or further down and not to the left of `floor`; a sequence may also stand at
`sequenceFloor`. Otherwise the node is empty. -/
def nodeBehind? (fuel : Nat) (floor sequenceFloor : Nat) (compact : Bool) (cursor : Cursor) :
    Option (Yaml × Cursor) :=
  match fuel with
  | 0 => none
  | fuel + 1 =>
    let (crossed, next) := cursor.toContent (!compact) false
    if next.rest.isEmpty then some (empty, cursor)
    else if crossed then
      if floor ≤ next.column || (sequenceFloor ≤ next.column && startsItem next.rest) then
        blockNode? fuel floor next
      else some (empty, cursor)
    else if compact then blockNode? fuel floor next
    else lineNode? fuel floor sequenceFloor next

/-- The node at the start of a line, or behind a dash. -/
def blockNode? (fuel : Nat) (floor : Nat) (cursor : Cursor) : Option (Yaml × Cursor) :=
  match fuel with
  | 0 => none
  | fuel + 1 =>
    if startsItem cursor.rest then do
      let (items, next) ← blockItems? fuel cursor
      return (.sequence none items, next)
    else if startsMark '?' cursor.rest || (implicitKey? fuel cursor).isSome then do
      let (entries, next) ← blockEntries? fuel cursor
      return (.mapping none entries, next)
    else lineNode? fuel floor floor cursor

/-- The node at the cursor, which is no block collection that starts on this line. -/
def lineNode? (fuel : Nat) (floor sequenceFloor : Nat) (cursor : Cursor) :
    Option (Yaml × Cursor) :=
  match fuel with
  | 0 => none
  | fuel + 1 =>
    match cursor.rest with
    | '|' :: _ | '>' :: _ => blockScalar? floor cursor
    | '[' :: _ | '\x7b' :: _ => do
      let (node, next) ← flowNode? fuel floor cursor
      return (node, ← next.atLineEnd?)
    | '\x27' :: _ | '\x22' :: _ => do
      let (node, next) ← quotedScalar? cursor
      return (node, ← next.atLineEnd?)
    | '*' :: _ => do
      let (node, next) ← alias? cursor
      return (node, ← next.atLineEnd?)
    | _ =>
      if startsProperties cursor.rest then do
        let (tag, name, next) ← properties? false cursor
        let (node, next) ← nodeBehind? fuel floor sequenceFloor false (next.enter name)
        return attach tag name node next
      else do
        let (node, next) ← plainScalar? false floor cursor
        return (node, ← next.atLineEnd?)

def blockItems? (fuel : Nat) (cursor : Cursor) : Option (List Yaml × Cursor) :=
  match fuel with
  | 0 => none
  | fuel + 1 => do
    let column := cursor.column
    let (item, next) ← nodeBehind? fuel (column + 1) (column + 1) true (cursor.advance 1)
    let further := next.toBlockContent
    if further.rest.isEmpty || further.column < column then return ([item], next)
    else if further.column = column then
      if startsItem further.rest then
        let (items, next) ← blockItems? fuel further
        return (item :: items, next)
      else return ([item], next)
    else none

/-- The entry of a block mapping whose key is at the cursor, behind a question mark or before a
colon. -/
def blockEntry? (fuel : Nat) (cursor : Cursor) : Option (Yaml × Yaml × Cursor) :=
  match fuel with
  | 0 => none
  | fuel + 1 =>
    let column := cursor.column
    if startsMark '?' cursor.rest then do
      let (key, next) ← nodeBehind? fuel (column + 1) column true (cursor.advance 1)
      let further := next.toBlockContent
      if further.column = column && startsMark ':' further.rest then
        let (value, next) ← nodeBehind? fuel (column + 1) column true (further.advance 1)
        return (key, value, next)
      else return (key, empty, next)
    else do
      let (key, next) ← implicitKey? fuel cursor
      let (value, next) ← nodeBehind? fuel (column + 1) column false next
      return (key, value, next)

def blockEntries? (fuel : Nat) (cursor : Cursor) : Option (List (Yaml × Yaml) × Cursor) :=
  match fuel with
  | 0 => none
  | fuel + 1 => do
    let column := cursor.column
    let (key, value, next) ← blockEntry? fuel cursor
    let further := next.toBlockContent
    if further.rest.isEmpty || further.column < column then return ([(key, value)], next)
    else if further.column = column then
      let (entries, next) ← blockEntries? fuel further
      return ((key, value) :: entries, next)
    else none

end

/-! ## Documents -/

def isMarkLine (mark : Char) (line : List Char) : Bool :=
  line.take 3 = [mark, mark, mark] && atSpace (line.drop 3)

def isEmptyLine (line : List Char) : Bool :=
  match line.dropWhile isBlank with
  | [] => true
  | c :: _ => c = '#' || isBreak c

/-- Whether a line is the version directive of a text that can be read. -/
def isVersionLine (line : List Char) : Bool :=
  let directive := trimEnd (line.takeWhile fun c => c ≠ '#' && !isBreak c)
  directive = "%YAML 1.1".toList || directive = "%YAML 1.2".toList

def isMarker (line : List Char) : Bool := isMarkLine '-' line || isMarkLine '.' line

/-- The content of the only document among the lines of a text, and whether it starts behind a
mark on its first line. -/
def contentLines? (lines : List (List Char)) : Option (List (List Char) × Bool) :=
  let head := lines.dropWhile fun line => isEmptyLine line || isVersionLine line
  let hasDirective := lines.any isVersionLine
  let (explicit, body) :=
    match head with
    | line :: rest => if isMarkLine '-' line then (true, line.drop 3 :: rest) else (false, head)
    | [] => (false, [])
  if (hasDirective && !explicit) || (body.head?.any (isMarkLine '.') && !explicit) then none
  else
    let content := body.takeWhile fun line => !isMarker line
    match body.dropWhile fun line => !isMarker line with
    | [] => some (content, explicit)
    | mark :: rest =>
      if isMarkLine '.' mark && rest.all (fun line => isEmptyLine line || isMarkLine '.' line) then
        some (content, explicit)
      else none

/-- The node that a YAML text denotes. A text without content denotes the empty node. -/
def ofText? (text : String) : Option Yaml := do
  let (lines, explicit) ← contentLines? (linesOf (← clean? text.toList))
  let content := lines.flatten
  let cursor : Cursor := { column := if explicit then 3 else 0, rest := content, anchors := [] }
  let (node, next) ← nodeBehind? (5 * content.length + 10) 0 0 (!explicit) cursor
  if next.toBlockContent.rest.isEmpty then some node else none

end Tableau.Yaml
