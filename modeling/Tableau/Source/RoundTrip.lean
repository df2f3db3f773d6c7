import Tableau.Program.Source
import Tableau.Source

/-!
# The canonical text compared with the text

A program text has the canonical text of its tree for a second form. The two have the same token
kinds, and they paint the same scene or fail with the same message; only lines may differ.
`RoundTrip` reports how a given text compares, and there is never a difference
(`Source.roundTrip_eq`).
-/

namespace Tableau.Source

/-- How a program text compares with its canonical text. -/
structure RoundTrip where
  /-- The canonical text. -/
  canonical : String
  /-- The canonical text of the canonical text. -/
  again : String
  /-- The token kinds of the canonical text. -/
  kinds : List Token.Kind
  /-- Whether the text has the same token kinds. -/
  sameKinds : Bool
  /-- Whether both texts paint the same scene or fail with the same message. -/
  sameScene : Bool
deriving Repr

/-- Whether two runs end in the same scene or with the same message. -/
def sameOutcome (first second : Except Fault Scene) : Bool :=
  match first, second with
  | .ok first, .ok second => first = second
  | .error first, .error second => first.message = second.message
  | _, _ => false

/-- Compare a program text with its canonical text. -/
def roundTrip (source : String) : Except Fault RoundTrip := do
  let sourceTokens ← tokens source
  let canonical := (← Program.parse sourceTokens).source
  let canonicalTokens ← tokens canonical
  let again := (← Program.parse canonicalTokens).source
  let kinds := canonicalTokens.map (·.kind)
  return {
    canonical
    again
    kinds
    sameKinds := sourceTokens.map (·.kind) = kinds
    sameScene := sameOutcome (scene source) (scene canonical) }

end Tableau.Source
