import Std.Data.TreeMap
import Tableau.Numeral
import Tableau.Program
import Tableau.Scene.Slot

/-!
# Painting

A `Painting` is a scene in the making: the canvas, the shapes in paint order, and the object that
`its` refers to. Names are looked up in an index from names to positions in paint order, and the
last used shape is remembered by its position too. A clause changes the painting or is at fault, and
the clauses of a program are obeyed one after the other; the first fault ends the painting.

`Painting.move` takes a shape out of the list and puts it in again at the position of another one.
Every shape between the two positions is then one place off, so `Painting.reindex` enters the names
in that range anew.
-/

namespace Tableau

/-- What `its` refers to. -/
inductive Antecedent
  | nothing
  | canvas
  | shape (position : Nat)
deriving DecidableEq, Repr

/-- The object that an assignment goes to, a shape by its position in paint order. -/
inductive Owner
  | canvas
  | shape (position : Nat)
deriving DecidableEq, Repr

/-- A scene in the making. -/
structure Painting where
  canvas : Canvas
  shapes : List Shape
  /-- The position in paint order of every name. -/
  index : Std.TreeMap String Nat
  lastUsed : Antecedent

def Token.readNumber (number : Token) : Except Fault UInt32 :=
  match Numeral.read32? number.text with
  | some n => .ok n
  | none => .error ⟨.numberTooLarge number.text, number.line⟩

/-- The value that a literal denotes. Of several numbers that are too large the first is at
fault. -/
def Literal.value : Literal → Except Fault Value
  | .number _ digits => do return ⟨[← digits.readNumber]⟩
  | .tuple _ numbers => do return ⟨← numbers.mapM Token.readNumber⟩
  | .color _ leaf => .ok leaf.kind.value

namespace Painting

def blank : Painting where
  canvas := .blank
  shapes := []
  index := ∅
  lastUsed := .nothing

def scene (painting : Painting) : Scene := ⟨painting.canvas, painting.shapes⟩

def lookup (painting : Painting) (name : Token) : Except Fault Nat :=
  match painting.index[name.text]? with
  | some position => .ok position
  | none => .error ⟨.undeclared name.text, name.line⟩

/-- Put a new shape in front of all others. -/
def declare (painting : Painting) (kind : Shape.Kind) (name : Token) : Except Fault Painting :=
  if name.text ∈ painting.index then
    .error ⟨.alreadyDeclared name.text, name.line⟩
  else
    .ok { painting with
      shapes := painting.shapes ++ [.declared kind name.text]
      index := painting.index.insert name.text painting.shapes.length
      lastUsed := .shape painting.shapes.length }

/-- The list with the element at position `i` taken out and put in again at position `j`. -/
def moved {α : Type} (i j : Nat) (elements : List α) : List α :=
  match elements[i]? with
  | some element => (elements.eraseIdx i).insertIdx j element
  | none => elements

/-- Enter the names of the shapes at the positions from `low` to `high` anew. -/
def reindex (shapes : List Shape) (low high : Nat) (index : Std.TreeMap String Nat) :
    Std.TreeMap String Nat :=
  ((shapes.zipIdx.take (high + 1)).drop low).foldl
    (fun index entry => index.insert entry.1.name entry.2) index

def move (painting : Painting) (i j : Nat) : Painting :=
  let shapes := moved i j painting.shapes
  { painting with
    shapes := shapes
    index := reindex shapes (min i j) (max i j) painting.index }

/-- Whether a shape at position `i` has yet to move for the placement relative to position `j`. -/
def misplaced (placement : Placement) (i j : Nat) : Bool :=
  match placement with
  | .front => i < j
  | .behind => j < i

/-- See to it that the first shape is in front of or behind the second one. A shape that already is
stays; one that is not moves right next to the other. -/
def place (painting : Painting) (first : Token) (placement : Placement) (second : Token) :
    Except Fault Painting :=
  if first.text = second.text then
    .error ⟨.placedAtItself first.text, first.line⟩
  else do
    let i ← painting.lookup first
    let j ← painting.lookup second
    if misplaced placement i j then
      return { painting.move i j with lastUsed := .shape j }
    else
      return { painting with lastUsed := .shape i }

/-- The object that a target goes to: the one it names, or else the last used one. -/
def owner (painting : Painting) (target : Target) : Except Fault Owner :=
  match target.object? with
  | some (.canvas _) => .ok .canvas
  | some (.shape _ name) => do return .shape (← painting.lookup name)
  | none =>
    match painting.lastUsed with
    | .canvas => .ok .canvas
    | .shape position => .ok (.shape position)
    | .nothing => .error ⟨.noAntecedent, target.token.line⟩

def dimension? (painting : Painting) (owner : Owner) (slot : Slot) : Option Nat :=
  match owner with
  | .canvas => Canvas.dimension? slot
  | .shape position => painting.shapes[position]?.map (·.kind.dimension slot)

/-- The slot of an owner that an attribute addresses, and its dimension. -/
def slot (painting : Painting) (owner : Owner) (attr : Attribute) (onBorder : Bool) :
    Except Cause (Slot × Nat) :=
  match Slot.of? attr onBorder with
  | none => .error .positionOfBorder
  | some slot =>
    match painting.dimension? owner slot with
    | none => .error .positionOfCanvas
    | some dimension => .ok (slot, dimension)

def write (painting : Painting) (owner : Owner) (slot : Slot) (value : Value) : Painting :=
  match owner with
  | .canvas => { painting with canvas := painting.canvas.set value slot, lastUsed := .canvas }
  | .shape position =>
    { painting with
      shapes := painting.shapes.modify position (·.set value slot)
      lastUsed := .shape position }

/-- Give the attribute of a target the value of a literal. The object is resolved first, then the
numbers, then the slot; last comes the dimension. -/
def assign (painting : Painting) (target : Target) (literal : Literal) :
    Except Fault Painting := do
  let owner ← painting.owner target
  let value ← literal.value
  let attr := target.attr
  let onBorder := target.area?.isSome
  match painting.slot owner attr.kind onBorder with
  | .error cause => .error ⟨cause, attr.token.line⟩
  | .ok (slot, dimension) =>
    if value.dimension = dimension then
      return painting.write owner slot value
    else
      .error ⟨.wrongDimension attr.kind onBorder dimension value, literal.token.line⟩

def step (painting : Painting) : Clause → Except Fault Painting
  | .declare _ name shape => painting.declare shape.kind name
  | .place _ first placement second => painting.place first placement.kind second
  | .assign _ target literal => painting.assign target literal

def run (painting : Painting) (clauses : List Clause) : Except Fault Painting :=
  clauses.foldlM step painting

end Painting

def Program.paint (program : Program) : Except Fault Scene := do
  return (← Painting.blank.run program.clauses).scene

end Tableau
