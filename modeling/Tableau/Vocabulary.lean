import Tableau.Scene

/-!
# Vocabulary

The words of the language that select something: an attribute, the border, a named color, a place
in the paint order. Each has the lower-case `word` that programs use and the capitalised `label`
that listings and outlines use.
-/

namespace Tableau

/-- The attributes that a sentence can assign. -/
inductive Attribute
  | position
  | size
  | color
deriving DecidableEq, Repr, Inhabited

namespace Attribute

def word : Attribute → String
  | position => "position"
  | size => "size"
  | color => "color"

def label : Attribute → String
  | position => "Position"
  | size => "Size"
  | color => "Color"

end Attribute

/-- The parts of an object that have attributes of their own. The border is the only one. -/
inductive Area
  | border
deriving DecidableEq, Repr, Inhabited

namespace Area

def word : Area → String
  | border => "border"

def label : Area → String
  | border => "Border"

end Area

inductive Color
  | red
  | blue
  | green
  | white
  | black
deriving DecidableEq, Repr, Inhabited

namespace Color

def word : Color → String
  | red => "red"
  | blue => "blue"
  | green => "green"
  | white => "white"
  | black => "black"

def label : Color → String
  | red => "Red"
  | blue => "Blue"
  | green => "Green"
  | white => "White"
  | black => "Black"

def value : Color → Value
  | red => .rgb 255 0 0
  | blue => .rgb 0 0 255
  | green => .rgb 0 255 0
  | white => .white
  | black => .black

@[simp] theorem dimension_value (color : Color) : color.value.dimension = 3 := by
  cases color <;> rfl

end Color

/-- The two places a shape can be given relative to another one. -/
inductive Placement
  | front
  | behind
deriving DecidableEq, Repr, Inhabited

namespace Placement

def phrase : Placement → String
  | front => "in front of"
  | behind => "behind"

def label : Placement → String
  | front => "Front"
  | behind => "Behind"

end Placement

end Tableau
