import Tableau.Token

/-!
# Programs as trees

A program is a list of sentences, a sentence a list of clauses that `and` joins, and a clause
declares a shape, places a shape relative to another one, or gives an attribute a value.

Every node keeps the token it starts at, for the line of a fault. A `Leaf` is a word of the
vocabulary: its kind carries the meaning and its token the place. Of a name or a number only the
text of the token counts. The type also has trees that no text produces, such as a sentence without
a clause or a tuple without a number.
-/

namespace Tableau

/-- A word of the vocabulary at a place in a program. -/
structure Leaf (α : Type) where
  token : Token
  kind : α
deriving DecidableEq, Repr

/-- What an attribute belongs to, where it is said outright. -/
inductive Object
  /-- `A` -/
  | shape (token name : Token)
  /-- `canvas` -/
  | canvas (token : Token)
deriving DecidableEq, Repr

/-- The right side of an assignment. -/
inductive Literal
  /-- `10` -/
  | number (token number : Token)
  /-- `(10, 20)` -/
  | tuple (token : Token) (numbers : List Token)
  /-- `red` -/
  | color (token : Token) (color : Leaf Color)
deriving DecidableEq, Repr

inductive Target
  /-- `size of A` -/
  | plain (token : Token) (attr : Leaf Attribute) (object : Object)
  /-- `size of border of A` -/
  | area (token : Token) (attr : Leaf Attribute) (area : Leaf Area) (object : Object)
  /-- `its size` -/
  | implicit (token : Token) (attr : Leaf Attribute)
  /-- `size of its border` -/
  | implicitArea (token : Token) (attr : Leaf Attribute) (area : Leaf Area)
deriving DecidableEq, Repr

/-- The smallest statement of a program. -/
inductive Clause
  /-- `A is circle` -/
  | declare (token name : Token) (shape : Leaf Shape.Kind)
  /-- `A is behind B` -/
  | place (token first : Token) (placement : Leaf Placement) (second : Token)
  /-- `size of A is 10` -/
  | assign (token : Token) (target : Target) (value : Literal)
deriving DecidableEq, Repr

/-- Clauses that `and` joins, up to a period. -/
structure Sentence where
  token : Token
  clauses : List Clause
deriving DecidableEq, Repr

structure Program where
  token : Token
  sentences : List Sentence
deriving DecidableEq, Repr

def Object.token : Object → Token
  | shape token _ | canvas token => token

def Literal.token : Literal → Token
  | number token _ | tuple token _ | color token _ => token

namespace Target

def token : Target → Token
  | plain token _ _ | area token _ _ _ | implicit token _ | implicitArea token _ _ => token

def attr : Target → Leaf Attribute
  | plain _ attr _ | area _ attr _ _ | implicit _ attr
  | implicitArea _ attr _ => attr

def area? : Target → Option (Leaf Area)
  | area _ _ part _ | implicitArea _ _ part => some part
  | plain .. | implicit .. => none

def object? : Target → Option Object
  | plain _ _ object | area _ _ _ object => some object
  | implicit .. | implicitArea .. => none

end Target

def Clause.token : Clause → Token
  | declare token _ _ | place token _ _ _ | assign token _ _ => token

/-- The clauses of all sentences, in the order in which they are obeyed. -/
def Program.clauses (program : Program) : List Clause := program.sentences.flatMap (·.clauses)

/-- What is done to the clauses of every sentence is done to the clauses of the program. -/
theorem Program.clauses_eq_map {program changed : Program} {onSentence : Sentence → Sentence}
    {onClause : Clause → Clause} (hsentences : changed.sentences = program.sentences.map onSentence)
    (hclauses : ∀ sentence, (onSentence sentence).clauses = sentence.clauses.map onClause) :
    changed.clauses = program.clauses.map onClause := by
  rw [clauses, hsentences, List.flatMap_map, clauses, List.map_flatMap, funext hclauses]

end Tableau
