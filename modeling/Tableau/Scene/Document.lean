import Tableau.Document
import Tableau.Scene

/-!
# Scenes as documents

The machine form of a scene is a record of the canvas and the list of shapes. Every field is
written, and every field is required when a scene is read; fields of other names are passed over.
-/

namespace Tableau

namespace Value

def document (value : Value) : Document := .list (value.numbers.map .number)

def ofNode? {ν : Type} [DataNode ν] (node : ν) : Option Value := do
  return ⟨← (← DataNode.items? node).mapM DataNode.number?⟩

end Value

namespace Canvas

/-- The names of the fields, in the order in which they are written. -/
def fieldNames : List String := ["size", "color", "border_size", "border_color"]

def document (canvas : Canvas) : Document :=
  .record (fieldNames.zip
    [canvas.size.document, canvas.color.document, canvas.borderSize.document,
     canvas.borderColor.document])

def ofNode? {ν : Type} [DataNode ν] (node : ν) : Option Canvas := do
  match ← DataNode.fields? fieldNames node with
  | [some size, some color, some borderSize, some borderColor] =>
    return {
      size := ← Value.ofNode? size
      color := ← Value.ofNode? color
      borderSize := ← Value.ofNode? borderSize
      borderColor := ← Value.ofNode? borderColor }
  | _ => none

end Canvas

namespace Shape

/-- The names of the fields, in the order in which they are written. -/
def fieldNames : List String :=
  ["kind", "name", "position", "size", "color", "border_size", "border_color"]

def document (shape : Shape) : Document :=
  .record (fieldNames.zip
    [.text shape.kind.word, .text shape.name, shape.position.document, shape.size.document,
     shape.color.document, shape.borderSize.document, shape.borderColor.document])

def ofNode? {ν : Type} [DataNode ν] (node : ν) : Option Shape := do
  match ← DataNode.fields? fieldNames node with
  | [some kind, some name, some position, some size, some color, some borderSize,
      some borderColor] =>
    return {
      kind := ← Shape.Kind.ofWord? (← DataNode.word? kind)
      name := ← DataNode.text? name
      position := ← Value.ofNode? position
      size := ← Value.ofNode? size
      color := ← Value.ofNode? color
      borderSize := ← Value.ofNode? borderSize
      borderColor := ← Value.ofNode? borderColor }
  | _ => none

end Shape

namespace Scene

/-- The names of the fields, in the order in which they are written. -/
def fieldNames : List String := ["canvas", "shapes"]

def document (scene : Scene) : Document :=
  .record (fieldNames.zip
    [scene.canvas.document, .list (scene.shapes.map Shape.document)])

def ofNode? {ν : Type} [DataNode ν] (node : ν) : Option Scene := do
  match ← DataNode.fields? fieldNames node with
  | [some canvas, some shapes] =>
    return {
      canvas := ← Canvas.ofNode? canvas
      shapes := ← (← DataNode.items? shapes).mapM Shape.ofNode? }
  | _ => none

end Scene

end Tableau
