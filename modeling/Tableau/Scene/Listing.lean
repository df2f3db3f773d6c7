import Tableau.Fault

/-!
# Scene listings

The listing of a scene is a block of lines for the canvas and then one for each shape in paint
order. A block is a heading and one line per attribute.
-/

namespace Tableau

/-- The line of an attribute in a block. -/
def Value.listingLine (attr : String) (value : Value) : String :=
  "- " ++ attr ++ ": " ++ value.text ++ "\n"

def Canvas.listing (canvas : Canvas) : String :=
  "Canvas\n" ++
    canvas.size.listingLine "size" ++
    canvas.color.listingLine "color" ++
    canvas.borderSize.listingLine "border.size" ++
    canvas.borderColor.listingLine "border.color"

def Shape.listing (shape : Shape) : String :=
  shape.kind.label ++ " \"" ++ shape.name ++ "\"\n" ++
    shape.position.listingLine "position" ++
    shape.size.listingLine "size" ++
    shape.color.listingLine "color" ++
    shape.borderSize.listingLine "border.size" ++
    shape.borderColor.listingLine "border.color"

def Scene.listing (scene : Scene) : String :=
  scene.canvas.listing ++ String.join (scene.shapes.map Shape.listing)

end Tableau
