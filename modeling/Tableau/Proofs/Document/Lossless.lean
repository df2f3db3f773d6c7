import Tableau.Proofs.Document.Json
import Tableau.Proofs.Document.Yaml
import Tableau.Proofs.Source.Reachable
import Tableau.Scene.Render

/-!
# The machine formats lose nothing

A scene is read back from its JSON, whatever its shapes are called and however long its values are.
It is read back from its YAML if the names of its shapes are words (`Scene.ofYaml?_render`), which
they are where a text paints the scene. A word that would read as a number, a truth value or null is
quoted, and a quoted word reads as itself.
-/

namespace Tableau

theorem Yaml.isWord_of_isIdentifier {text : List Char} (h : Token.IsIdentifier text) :
    IsWord text where
  ne_nil := by
    rintro rfl
    exact h
  forall_mem := h.forall_mem

namespace Scene

variable {scene : Scene}

theorem ofJson?_render (scene : Scene) : ofJson? (scene.render .json) = some scene := by
  show (Json.ofText? scene.document.json).bind ofNode? = some scene
  rw [Json.ofText?_json, Option.bind_some, ofNode?_document Json.faithful_ofDocument]

theorem ofYaml?_render (h : ∀ name ∈ scene.names, Yaml.IsWord name.toList) :
    ofYaml? (scene.render .yaml) = some scene := by
  have hfields : ∀ name ∈ fieldNames ++ Canvas.fieldNames ++ Shape.fieldNames,
      Yaml.IsWord name.toList := by
    have hcheck : (fieldNames ++ Canvas.fieldNames ++ Shape.fieldNames).all (fun name =>
        !name.toList.isEmpty && name.toList.all isNameCharacter) = true := by
      decide +kernel
    exact fun name hname => Yaml.isWord_of_all (List.all_eq_true.1 hcheck name hname)
  have hkinds : ∀ kind : Shape.Kind, Yaml.IsWord kind.word.toList := by
    intro kind
    apply Yaml.isWord_of_all
    cases kind <;> decide +kernel
  show (Yaml.ofText? scene.document.yaml).bind ofNode? = some scene
  rw [Yaml.ofText?_yaml (allTexts_document hfields hkinds h), Option.bind_some,
    ofNode?_document Yaml.faithful_ofDocument]

/-- **The machine formats lose nothing**: every scene is read back from its JSON, and every scene
that a text paints is read back from its YAML. -/
theorem formats_lossless (scene : Scene) :
    ofJson? (scene.render .json) = some scene ∧
    (scene.Written → ofYaml? (scene.render .yaml) = some scene) := by
  refine ⟨ofJson?_render scene, fun hwritten => ofYaml?_render fun name hname => ?_⟩
  obtain ⟨-, hnames⟩ := written_iff.1 hwritten
  exact Yaml.isWord_of_isIdentifier (hnames name hname).identifier

/-- Shapes whose names readers of YAML may take for truth values, null or numbers. -/
theorem formats_lossless_of_ambiguous_names :
    let names := ["true", "Null", "yes", "on", "nan", "_"]
    let scene : Scene := ⟨.blank, names.map (Shape.declared .circle)⟩
    scene.Written ∧ ofYaml? (scene.render .yaml) = some scene := by
  intro names scene
  have hmatch : ∀ name ∈ names,
      Token.firstMatch Token.Kind.priority name.toList = some (.name, name.toList) := by
    decide +kernel
  have hformed : scene.WellFormed :=
    ⟨by decide +kernel, ⟨rfl, rfl, rfl, rfl⟩, fun shape hshape => by
      obtain ⟨name, -, rfl⟩ := List.mem_map.1 hshape
      exact Shape.sized_declared _ _⟩
  have hnames : ∀ name ∈ scene.names, Token.IsName name.toList := fun name hname =>
    Token.isName_of_firstMatch (hmatch name hname)
  have hwritten := written_iff.2 ⟨hformed, hnames⟩
  exact ⟨hwritten, (formats_lossless scene).2 hwritten⟩

end Scene

end Tableau
