import Tableau.Source

/-!
# Sessions

In a session a program grows piece by piece. Every piece is tried at the end of the text that has
been accepted so far, as a line of its own, and the whole text is run from the start. A piece that
makes the run fail is dropped again, so the accepted text always paints a scene, unless it is empty
(`Source.paints_kept`).
-/

namespace Tableau.Source

/-- The accepted text with a piece behind it. -/
def extend (accepted piece : String) : String := accepted ++ piece ++ "\n"

/-- The accepted text after a piece, and how the run with that piece ends. -/
def sessionStep (accepted piece : String) : String × Except Fault Scene :=
  match scene (extend accepted piece) with
  | .ok scene => (extend accepted piece, .ok scene)
  | .error fault => (accepted, .error fault)

/-- How the run with each piece ends, after some text has been accepted. -/
def sessionFrom (accepted : String) : List String → List (Except Fault Scene)
  | [] => []
  | piece :: pieces =>
    let (accepted, outcome) := sessionStep accepted piece
    outcome :: sessionFrom accepted pieces

/-- How the run with each piece of a session ends. -/
def session (pieces : List String) : List (Except Fault Scene) := sessionFrom "" pieces

end Tableau.Source
