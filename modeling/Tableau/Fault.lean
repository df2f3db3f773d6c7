import Tableau.Vocabulary

/-!
# Faults

A program can fail in three stages: its text is scanned into tokens, the tokens are parsed into a
tree, and the tree is painted into a scene. The first thing that is wrong ends the run. A `Fault` is
that `Cause` and the line it is found on; every wording is in `Cause.message`.
-/

namespace Tableau

inductive Stage
  | scanning
  | parsing
  | painting
deriving DecidableEq, Repr, Inhabited

inductive Cause
  /-- No token starts with the character. -/
  | unknownCharacter (character : Char)
  /-- No program continues with the token that has this text. -/
  | unexpectedToken (text : String)
  /-- No program ends here. -/
  | unexpectedEnd
  /-- The name of a new shape is taken. -/
  | alreadyDeclared (name : String)
  /-- No shape has the name. -/
  | undeclared (name : String)
  /-- A shape is placed relative to itself. -/
  | placedAtItself (name : String)
  /-- There is no object yet that `its` could refer to. -/
  | noAntecedent
  /-- The text is not a number of 32 bits. -/
  | numberTooLarge (text : String)
  /-- A border is given a position. -/
  | positionOfBorder
  /-- The canvas is given a position. -/
  | positionOfCanvas
  /-- A value has not the dimension that its attribute has. -/
  | wrongDimension (attr : Attribute) (onBorder : Bool) (expected : Nat) (value : Value)
deriving DecidableEq, Repr, Inhabited

/-- What is wrong and the line it is found on. -/
structure Fault where
  cause : Cause
  line : Nat
deriving DecidableEq, Repr, Inhabited

/-- The tuple of a value as programs write it. -/
def Value.text (v : Value) : String :=
  "(" ++ ", ".intercalate (v.numbers.map (·.toNat.repr)) ++ ")"

def Stage.label : Stage → String
  | scanning => "LexError"
  | parsing => "ParseError"
  | painting => "InterpretError"

namespace Cause

def stage : Cause → Stage
  | unknownCharacter _ => .scanning
  | unexpectedToken _ | unexpectedEnd => .parsing
  | _ => .painting

private def quoted (text : String) : String := "\"" ++ text ++ "\""

def message : Cause → String
  | unknownCharacter c => "unknown character " ++ quoted (String.singleton c)
  | unexpectedToken text => "wrong syntax at " ++ quoted text
  | unexpectedEnd => "wrong syntax at end of input"
  | alreadyDeclared name => "Shape " ++ quoted name ++ " already exists!"
  | undeclared name => "Shape " ++ quoted name ++ " doesn't exist!"
  | placedAtItself name => "Shape " ++ quoted name ++ " cannot be in front of or behind itself!"
  | noAntecedent => "There is no object to refer to with " ++ quoted "its" ++ "!"
  | numberTooLarge text => "Number " ++ quoted text ++ " is too large!"
  | positionOfBorder => "Invalid attribute for border: position!"
  | positionOfCanvas => "Invalid attribute for canvas: position!"
  | wrongDimension attr onBorder expected value =>
    (if onBorder then "border " else "") ++ attr.word ++ " must have dimension " ++
      expected.repr ++ ", got " ++ value.text ++ " with dimension " ++ value.dimension.repr ++ "!"

end Cause

namespace Fault

def stage (fault : Fault) : Stage := fault.cause.stage

def message (fault : Fault) : String := fault.cause.message

def text (fault : Fault) : String :=
  "[line " ++ fault.line.repr ++ "] " ++ fault.stage.label ++ ": " ++ fault.message

/-- The same fault some lines further down. -/
def shift (lines : Nat) (fault : Fault) : Fault := { fault with line := fault.line + lines }

end Fault

end Tableau
