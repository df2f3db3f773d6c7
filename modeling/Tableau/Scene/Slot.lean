import Tableau.Fault

/-!
# Slots

A slot is one of the five places for a value that a shape has; the canvas has four of them, all but
the position. An attribute word addresses a slot of the object itself or of its border
(`Slot.of?`). The two laws that `get` and `set` obey are stated for shapes and for the canvas: the
slot that is set holds the new value, and the other slots hold what they held.
-/

namespace Tableau

inductive Slot
  | position
  | size
  | color
  | borderSize
  | borderColor
deriving DecidableEq, Repr, Inhabited

/-- The slot that an attribute addresses. A border has no position. -/
def Slot.of? (attr : Attribute) (onBorder : Bool) : Option Slot :=
  match attr, onBorder with
  | .position, false => some .position
  | .position, true => none
  | .size, false => some .size
  | .size, true => some .borderSize
  | .color, false => some .color
  | .color, true => some .borderColor

def Shape.Kind.dimension (kind : Shape.Kind) : Slot → Nat
  | .position => 2
  | .size => kind.sizeDimension
  | .color => 3
  | .borderSize => 1
  | .borderColor => 3

/-- The dimension of a slot of the canvas, which has no position. -/
def Canvas.dimension? : Slot → Option Nat
  | .position => none
  | .size => some 2
  | .color => some 3
  | .borderSize => some 1
  | .borderColor => some 3

namespace Shape

def get (shape : Shape) : Slot → Value
  | .position => shape.position
  | .size => shape.size
  | .color => shape.color
  | .borderSize => shape.borderSize
  | .borderColor => shape.borderColor

def set (shape : Shape) (value : Value) : Slot → Shape
  | .position => { shape with position := value }
  | .size => { shape with size := value }
  | .color => { shape with color := value }
  | .borderSize => { shape with borderSize := value }
  | .borderColor => { shape with borderColor := value }

@[simp] theorem get_set_self (shape : Shape) (value : Value) (slot : Slot) :
    (shape.set value slot).get slot = value := by
  cases slot <;> rfl

theorem get_set_of_ne (shape : Shape) (value : Value) {slot other : Slot} (h : other ≠ slot) :
    (shape.set value slot).get other = shape.get other := by
  cases slot <;> cases other <;> first | rfl | exact absurd rfl h

@[simp] theorem name_set (shape : Shape) (value : Value) (slot : Slot) :
    (shape.set value slot).name = shape.name := by
  cases slot <;> rfl

@[simp] theorem kind_set (shape : Shape) (value : Value) (slot : Slot) :
    (shape.set value slot).kind = shape.kind := by
  cases slot <;> rfl

end Shape

namespace Canvas

/-- The value in a slot. The canvas stands at the origin and cannot be moved. -/
def get (canvas : Canvas) : Slot → Value
  | .position => ⟨[0, 0]⟩
  | .size => canvas.size
  | .color => canvas.color
  | .borderSize => canvas.borderSize
  | .borderColor => canvas.borderColor

/-- The canvas with another value in a slot. It has no position to change. -/
def set (canvas : Canvas) (value : Value) : Slot → Canvas
  | .position => canvas
  | .size => { canvas with size := value }
  | .color => { canvas with color := value }
  | .borderSize => { canvas with borderSize := value }
  | .borderColor => { canvas with borderColor := value }

theorem get_set_self (canvas : Canvas) (value : Value) {slot : Slot} (h : slot ≠ .position) :
    (canvas.set value slot).get slot = value := by
  cases slot <;> first | rfl | exact absurd rfl h

theorem get_set_of_ne (canvas : Canvas) (value : Value) {slot other : Slot} (h : other ≠ slot) :
    (canvas.set value slot).get other = canvas.get other := by
  cases slot <;> cases other <;> first | rfl | exact absurd rfl h

end Canvas

end Tableau
