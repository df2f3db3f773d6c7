import Tableau.Painting
import Tableau.Program.Parser
import Tableau.Token.Lexer

/-!
# Program text

The three stages over the text of a program: its tokens, its tree and its scene. Each stage starts
from the text itself and keeps nothing between runs; the first stage that fails gives the fault.
-/

namespace Tableau.Source

/-- The tokens of a program text, which starts at line 1. -/
def tokens (source : String) : Except Fault (List Token) :=
  Token.scan Token.Kind.priority 1 source.toList

def program (source : String) : Except Fault Program := do
  Program.parse (← tokens source)

def scene (source : String) : Except Fault Scene := do
  (← program source).paint

section Stages

variable {source : String} {found : List Token} {tree : Program} {result : Scene}

theorem program_of_tokens (h : tokens source = .ok found) :
    program source = Program.parse found := by
  unfold program
  rw [h]
  rfl

theorem scene_of_program (h : program source = .ok tree) : scene source = tree.paint := by
  unfold scene
  rw [h]
  rfl

/-- A text that has a scene comes through all stages. -/
theorem stages_of_scene (h : scene source = .ok result) : ∃ found tree,
    tokens source = .ok found ∧ Program.parse found = .ok tree ∧ tree.paint = .ok result := by
  cases htokens : tokens source with
  | error fault =>
    unfold scene program at h
    rw [htokens] at h
    cases h
  | ok found =>
    cases hparse : Program.parse found with
    | error fault =>
      unfold scene at h
      rw [program_of_tokens htokens, hparse] at h
      cases h
    | ok tree =>
      rw [scene_of_program ((program_of_tokens htokens).trans hparse)] at h
      exact ⟨found, tree, rfl, hparse, h⟩

end Stages

end Tableau.Source
