import Tableau.Json.Printer
import Tableau.Json.Reader
import Tableau.Scene.Listing
import Tableau.Settings

/-!
# Writing and reading scenes

A scene is written as its listing, as YAML or as JSON, and it is read from the latter two.
-/

namespace Tableau.Scene

/-- A scene in one of the written forms. -/
def render (scene : Scene) : Format → String
  | .text => scene.listing
  | .yaml => scene.document.yaml
  | .json => scene.document.json

def ofJson? (text : String) : Option Scene := do ofNode? (← Json.ofText? text)

def ofYaml? (text : String) : Option Scene := do ofNode? (← Yaml.ofText? text)

end Tableau.Scene
