import Tableau.Program

/-!
# The canonical text of a program

`Program.source` writes a tree as program text: keywords in lower case, one space between words,
names and numbers as they are, one sentence per line.
-/

namespace Tableau

def Object.source : Object → String
  | .shape _ name => name.text
  | .canvas _ => "canvas"

def Literal.source : Literal → String
  | .number _ digits => digits.text
  | .tuple _ numbers => "(" ++ ", ".intercalate (numbers.map (·.text)) ++ ")"
  | .color _ leaf => leaf.kind.word

def Target.source : Target → String
  | .plain _ attr object => attr.kind.word ++ " of " ++ object.source
  | .area _ attr part object =>
    attr.kind.word ++ " of " ++ part.kind.word ++ " of " ++ object.source
  | .implicit _ attr => "its " ++ attr.kind.word
  | .implicitArea _ attr part => attr.kind.word ++ " of its " ++ part.kind.word

def Clause.source : Clause → String
  | .declare _ name shape => name.text ++ " is " ++ shape.kind.word
  | .place _ first placement second =>
    first.text ++ " is " ++ placement.kind.phrase ++ " " ++ second.text
  | .assign _ target value => target.source ++ " is " ++ value.source

/-- A sentence on a line of its own. -/
def Sentence.source (sentence : Sentence) : String :=
  " and ".intercalate (sentence.clauses.map Clause.source) ++ ".\n"

/-- The canonical text of a program. -/
def Program.source (program : Program) : String :=
  String.join (program.sentences.map Sentence.source)

end Tableau
