/-!
# Scenes

A scene is what a program describes: a canvas and a list of shapes. The list is in **paint
order**, so that an earlier shape is painted first and lies behind a later one.

Every attribute holds a `Value`, a tuple of 32-bit numbers. Its length is its dimension. A scene
does not enforce dimensions or distinct names: scenes are also read from files, where any tuple and
any name may stand. Which scenes a program can reach is a property of painting.
-/

namespace Tableau

/-- A tuple of numbers, the content of one attribute. -/
structure Value where
  numbers : List UInt32
deriving DecidableEq, Repr, Inhabited

namespace Value

def dimension (v : Value) : Nat := v.numbers.length

def filled (number : UInt32) (count : Nat) : Value := ⟨List.replicate count number⟩

/-- A color as red, green and blue parts. -/
def rgb (red green blue : UInt32) : Value := ⟨[red, green, blue]⟩

def white : Value := rgb 255 255 255

def black : Value := rgb 0 0 0

@[simp] theorem dimension_mk (numbers : List UInt32) : dimension ⟨numbers⟩ = numbers.length := rfl

@[simp] theorem dimension_filled (number : UInt32) (count : Nat) :
    (filled number count).dimension = count := by
  simp [filled]

@[simp] theorem dimension_rgb (red green blue : UInt32) : (rgb red green blue).dimension = 3 := rfl

end Value

/-- The four figures that a shape can be. -/
inductive Shape.Kind
  | circle
  | square
  | ellipse
  | rectangle
deriving DecidableEq, Repr, Inhabited

namespace Shape.Kind

def word : Shape.Kind → String
  | circle => "circle"
  | square => "square"
  | ellipse => "ellipse"
  | rectangle => "rectangle"

def label : Shape.Kind → String
  | circle => "Circle"
  | square => "Square"
  | ellipse => "Ellipse"
  | rectangle => "Rectangle"

def ofWord? (word : String) : Option Shape.Kind :=
  [circle, square, ellipse, rectangle].find? (·.word = word)

/-- One number sizes a circle or a square; an ellipse or a rectangle has a width and a height. -/
def sizeDimension : Shape.Kind → Nat
  | circle | square => 1
  | ellipse | rectangle => 2

@[simp] theorem ofWord?_word (kind : Shape.Kind) : ofWord? kind.word = some kind := by
  cases kind <;> decide

end Shape.Kind

/-- A named figure with its five attributes. -/
structure Shape where
  kind : Shape.Kind
  name : String
  position : Value
  size : Value
  color : Value
  borderSize : Value
  borderColor : Value
deriving DecidableEq, Repr, Inhabited

/-- A shape as it is declared: at the origin, of unit size, black and without a border. -/
def Shape.declared (kind : Shape.Kind) (name : String) : Shape where
  kind := kind
  name := name
  position := ⟨[0, 0]⟩
  size := .filled 1 kind.sizeDimension
  color := .black
  borderSize := ⟨[0]⟩
  borderColor := .black

/-- The surface that the shapes are painted on. -/
structure Canvas where
  size : Value
  color : Value
  borderSize : Value
  borderColor : Value
deriving DecidableEq, Repr, Inhabited

/-- The canvas before a program touches it: a hundred by a hundred, white and without a border. -/
def Canvas.blank : Canvas where
  size := ⟨[100, 100]⟩
  color := .white
  borderSize := ⟨[0]⟩
  borderColor := .white

/-- A canvas with shapes in paint order. -/
structure Scene where
  canvas : Canvas
  shapes : List Shape
deriving DecidableEq, Repr, Inhabited

namespace Scene

def names (scene : Scene) : List String := scene.shapes.map (·.name)

/-- The first shape in paint order that bears a name. -/
def shape? (scene : Scene) (name : String) : Option Shape := scene.shapes.find? (·.name = name)

end Scene

end Tableau
