import Tableau.Program

/-!
# The outline of a program

An `Outline` is a labelled tree, written with one line per node and two more spaces of indentation
per level. `Program.outline` shows the nodes of a program in this form.
-/

namespace Tableau

/-- A tree of labels. -/
inductive Outline
  | node (label : String) (children : List Outline)

namespace Outline

def tip (label : String) : Outline := node label []

mutual

def lines (depth : Nat) : Outline → List String
  | node label children =>
    (String.ofList (List.replicate (2 * depth) ' ') ++ label) :: forestLines (depth + 1) children

def forestLines (depth : Nat) : List Outline → List String
  | [] => []
  | tree :: trees => lines depth tree ++ forestLines depth trees

end

def text (tree : Outline) : String := String.join ((tree.lines 0).map (· ++ "\n"))

end Outline

def Token.nameOutline (name : Token) : Outline := .tip ("Name \"" ++ name.text ++ "\"")

def Token.numberOutline (number : Token) : Outline := .tip ("Number " ++ number.text)

def Object.outline : Object → Outline
  | .shape _ name => .node "Object" [name.nameOutline]
  | .canvas _ => .node "Object" [.tip "Canvas"]

def Literal.outline : Literal → Outline
  | .number _ digits => .node "Value" [digits.numberOutline]
  | .tuple _ numbers => .node "Value" [.node "Tuple" (numbers.map Token.numberOutline)]
  | .color _ leaf => .node "Value" [.tip ("Color " ++ leaf.kind.label)]

def Target.outline : Target → Outline
  | .plain _ attr object =>
    .node "AttributeTarget" [.tip ("Attribute " ++ attr.kind.label), object.outline]
  | .area _ attr part object =>
    .node "AreaAttributeTarget"
      [.tip ("Attribute " ++ attr.kind.label), .tip ("Area " ++ part.kind.label),
       object.outline]
  | .implicit _ attr =>
    .node "ImplicitAttributeTarget" [.tip ("Attribute " ++ attr.kind.label)]
  | .implicitArea _ attr part =>
    .node "ImplicitAreaAttributeTarget"
      [.tip ("Attribute " ++ attr.kind.label), .tip ("Area " ++ part.kind.label)]

def Clause.outline : Clause → Outline
  | .declare _ name shape =>
    .node "ShapeSentence" [name.nameOutline, .tip ("Shape " ++ shape.kind.label)]
  | .place _ first placement second =>
    .node "OrderSentence"
      [first.nameOutline, .tip ("Order " ++ placement.kind.label), second.nameOutline]
  | .assign _ target value => .node "ValueSentence" [target.outline, value.outline]

def Sentence.outline (sentence : Sentence) : Outline :=
  .node "Sentence" (sentence.clauses.map Clause.outline)

def Program.outline (program : Program) : Outline :=
  .node "Input" (program.sentences.map Sentence.outline)

end Tableau
