import Tableau.Proofs.Painting.Index

/-!
# Painting by name

A `Sketch` is a painting without positions: the canvas, the shapes in paint order, and what `its`
refers to, a shape by its name. Shapes are found by searching the list. A shape that has to move is
taken out of the list and put right in front of or right behind the other one.

`Painting.sketch` forgets the positions of a painting. Where the index is right (`Consistent`), a
clause does to a painting what it does to its sketch (`sketch_step`), the faults included, and so a
program paints what it sketches (`paint_eq_paintByName`).
-/

namespace Tableau

/-- What `its` refers to, a shape by its name. -/
inductive Referent
  | nothing
  | canvas
  | shape (name : String)
deriving DecidableEq, Repr

/-- The object that an assignment goes to, as it was found. -/
inductive Subject
  | canvas
  | shape (found : Shape)
deriving DecidableEq, Repr

/-- A scene in the making, without positions. -/
structure Sketch where
  canvas : Canvas
  shapes : List Shape
  lastUsed : Referent
deriving DecidableEq, Repr

/-- Whether the shape with the first name is painted before the one with the second name. -/
def paintedBefore (first second : String) (shapes : List Shape) : Bool :=
  (shapes.dropWhile (·.name ≠ first)).any (·.name = second)

def without (name : String) (shapes : List Shape) : List Shape := shapes.filter (·.name ≠ name)

/-- The shapes with one more, right in front of or right behind the one of a name. -/
def putBeside (placement : Placement) (name : String) (shape : Shape) (shapes : List Shape) :
    List Shape :=
  shapes.flatMap fun other =>
    if other.name = name then
      match placement with
      | .front => [other, shape]
      | .behind => [shape, other]
    else [other]

/-- Whether a placement is asked for that does not hold yet. -/
def violated (placement : Placement) (first second : String) (shapes : List Shape) : Bool :=
  match placement with
  | .front => paintedBefore first second shapes
  | .behind => paintedBefore second first shapes

def Subject.dimension? (subject : Subject) (slot : Slot) : Option Nat :=
  match subject with
  | .canvas => Canvas.dimension? slot
  | .shape found => some (found.kind.dimension slot)

def Subject.slot (subject : Subject) (attr : Attribute) (onBorder : Bool) :
    Except Cause (Slot × Nat) :=
  match Slot.of? attr onBorder with
  | none => .error .positionOfBorder
  | some slot =>
    match subject.dimension? slot with
    | none => .error .positionOfCanvas
    | some dimension => .ok (slot, dimension)

namespace Sketch

def blank : Sketch where
  canvas := .blank
  shapes := []
  lastUsed := .nothing

def scene (sketch : Sketch) : Scene := ⟨sketch.canvas, sketch.shapes⟩

def find (sketch : Sketch) (name : Token) : Except Fault Shape :=
  match sketch.shapes.find? (·.name = name.text) with
  | some shape => .ok shape
  | none => .error ⟨.undeclared name.text, name.line⟩

def declare (sketch : Sketch) (kind : Shape.Kind) (name : Token) : Except Fault Sketch :=
  if sketch.shapes.any (·.name = name.text) then
    .error ⟨.alreadyDeclared name.text, name.line⟩
  else
    .ok { sketch with
      shapes := sketch.shapes ++ [.declared kind name.text]
      lastUsed := .shape name.text }

/-- See to it that the first shape is in front of or behind the second one. -/
def place (sketch : Sketch) (first : Token) (placement : Placement) (second : Token) :
    Except Fault Sketch :=
  if first.text = second.text then
    .error ⟨.placedAtItself first.text, first.line⟩
  else do
    let shape ← sketch.find first
    let _ ← sketch.find second
    if violated placement first.text second.text sketch.shapes then
      return { sketch with
        shapes := putBeside placement second.text shape (without first.text sketch.shapes)
        lastUsed := .shape first.text }
    else
      return { sketch with lastUsed := .shape first.text }

/-- The object that a target goes to: the one it names, or else the one that now bears the last
used name. -/
def subject (sketch : Sketch) (target : Target) : Except Fault Subject :=
  match target.object? with
  | some (.canvas _) => .ok .canvas
  | some (.shape _ name) => do return .shape (← sketch.find name)
  | none =>
    match sketch.lastUsed with
    | .canvas => .ok .canvas
    | .nothing => .error ⟨.noAntecedent, target.token.line⟩
    | .shape name =>
      match sketch.shapes.find? (·.name = name) with
      | some shape => .ok (.shape shape)
      | none => .error ⟨.noAntecedent, target.token.line⟩

def write (sketch : Sketch) (subject : Subject) (slot : Slot) (value : Value) : Sketch :=
  match subject with
  | .canvas => { sketch with canvas := sketch.canvas.set value slot, lastUsed := .canvas }
  | .shape found =>
    { sketch with
      shapes := sketch.shapes.map fun other =>
        if other.name = found.name then other.set value slot else other
      lastUsed := .shape found.name }

def assign (sketch : Sketch) (target : Target) (literal : Literal) : Except Fault Sketch := do
  let subject ← sketch.subject target
  let value ← literal.value
  let attr := target.attr
  let onBorder := target.area?.isSome
  match subject.slot attr.kind onBorder with
  | .error cause => .error ⟨cause, attr.token.line⟩
  | .ok (slot, dimension) =>
    if value.dimension = dimension then
      return sketch.write subject slot value
    else
      .error ⟨.wrongDimension attr.kind onBorder dimension value, literal.token.line⟩

def step (sketch : Sketch) : Clause → Except Fault Sketch
  | .declare _ name shape => sketch.declare shape.kind name
  | .place _ first placement second => sketch.place first placement.kind second
  | .assign _ target literal => sketch.assign target literal

def run (sketch : Sketch) (clauses : List Clause) : Except Fault Sketch :=
  clauses.foldlM step sketch

end Sketch

/-- The scene that a program paints, by name. -/
def Program.paintByName (program : Program) : Except Fault Scene := do
  return (← Sketch.blank.run program.clauses).scene

/-! ## Lists of distinct names -/

section Distinct

variable {shapes : List Shape} {shape other : Shape} {i j : Nat}

/-- The element at a position is the one that a search for its name finds. -/
theorem find?_name (hnodup : (shapes.map (·.name)).Nodup) (hi : shapes[i]? = some shape) :
    shapes.find? (·.name = shape.name) = some shape := by
  induction shapes generalizing i with
  | nil => simp at hi
  | cons head rest ih =>
    rw [List.map_cons, List.nodup_cons] at hnodup
    cases i with
    | zero =>
      cases hi
      simp
    | succ i =>
      have hne : head.name ≠ shape.name := fun h =>
        hnodup.1 (h ▸ List.mem_map_of_mem (List.mem_of_getElem? hi))
      rw [List.find?_cons_of_neg (by simpa using hne)]
      exact ih hnodup.2 hi

/-- Changing the element at a position is changing the one that bears its name. -/
theorem modify_eq_map (hnodup : (shapes.map (·.name)).Nodup) (hi : shapes[i]? = some shape)
    (change : Shape → Shape) :
    shapes.modify i change =
      shapes.map fun s => if s.name = shape.name then change s else s := by
  induction shapes generalizing i with
  | nil => simp at hi
  | cons head rest ih =>
    rw [List.map_cons, List.nodup_cons] at hnodup
    cases i with
    | zero =>
      cases hi
      have hrest : rest.map (fun s => if s.name = shape.name then change s else s) = rest := by
        refine (List.map_congr_left fun s hs => if_neg fun h => ?_).trans (List.map_id _)
        exact hnodup.1 (h ▸ List.mem_map_of_mem hs)
      rw [List.modify_zero_cons, List.map_cons, hrest, if_pos rfl]
    | succ i =>
      have hne : head.name ≠ shape.name := fun h =>
        hnodup.1 (h ▸ List.mem_map_of_mem (List.mem_of_getElem? hi))
      rw [List.modify_succ_cons, List.map_cons, if_neg hne, ih hnodup.2 hi]

/-- Taking out the element at a position is taking out the one that bears its name. -/
theorem eraseIdx_eq_without (hnodup : (shapes.map (·.name)).Nodup)
    (hi : shapes[i]? = some shape) : shapes.eraseIdx i = without shape.name shapes := by
  unfold without
  induction shapes generalizing i with
  | nil => simp at hi
  | cons head rest ih =>
    rw [List.map_cons, List.nodup_cons] at hnodup
    cases i with
    | zero =>
      cases hi
      have hrest : rest.filter (·.name ≠ shape.name) = rest := by
        refine List.filter_eq_self.2 fun s hs => decide_eq_true fun h => ?_
        exact hnodup.1 (h ▸ List.mem_map_of_mem hs)
      rw [List.filter_cons_of_neg (by simp), hrest, List.eraseIdx_cons_zero]
    | succ i =>
      have hne : head.name ≠ shape.name := fun h =>
        hnodup.1 (h ▸ List.mem_map_of_mem (List.mem_of_getElem? hi))
      rw [List.filter_cons_of_pos (by simpa using hne), List.eraseIdx_cons_succ, ih hnodup.2 hi]

theorem putBeside_of_not_mem {placement : Placement} {name : String}
    (h : ∀ s ∈ shapes, s.name ≠ name) : putBeside placement name shape shapes = shapes := by
  induction shapes with
  | nil => rfl
  | cons head rest ih =>
    have hrest := ih fun s hs => h s (List.mem_cons_of_mem _ hs)
    unfold putBeside at hrest ⊢
    rw [List.flatMap_cons, if_neg (h head List.mem_cons_self), hrest, List.singleton_append]

/-- Right in front of an element is the position behind its own, right behind it its own. -/
theorem putBeside_eq_insertIdx (hnodup : (shapes.map (·.name)).Nodup)
    (hj : shapes[j]? = some other) (placement : Placement) :
    putBeside placement other.name shape shapes =
      match placement with
      | .front => shapes.insertIdx (j + 1) shape
      | .behind => shapes.insertIdx j shape := by
  induction shapes generalizing j with
  | nil => simp at hj
  | cons head rest ih =>
    rw [List.map_cons, List.nodup_cons] at hnodup
    cases j with
    | zero =>
      cases hj
      have hrest : putBeside placement other.name shape rest = rest :=
        putBeside_of_not_mem fun s hs h => hnodup.1 (h ▸ List.mem_map_of_mem hs)
      unfold putBeside at hrest ⊢
      rw [List.flatMap_cons, hrest, if_pos rfl]
      cases placement <;> simp
    | succ j =>
      have hne : head.name ≠ other.name := fun h =>
        hnodup.1 (h ▸ List.mem_map_of_mem (List.mem_of_getElem? hj))
      have hrest := ih hnodup.2 hj
      unfold putBeside at hrest ⊢
      rw [List.flatMap_cons, hrest, if_neg hne]
      cases placement <;> simp

/-- One shape is painted before another one exactly if it stands at an earlier position. -/
theorem paintedBefore_eq (hnodup : (shapes.map (·.name)).Nodup) (hi : shapes[i]? = some shape)
    (hj : shapes[j]? = some other) (hne : shape.name ≠ other.name) :
    paintedBefore shape.name other.name shapes = decide (i < j) := by
  unfold paintedBefore
  induction shapes generalizing i j with
  | nil => simp at hi
  | cons head rest ih =>
    rw [List.map_cons, List.nodup_cons] at hnodup
    cases i with
    | zero =>
      cases hi
      cases j with
      | zero =>
        cases hj
        exact absurd rfl hne
      | succ j =>
        have hmem : other ∈ rest := List.mem_of_getElem? hj
        rw [List.dropWhile_cons_of_neg (by simp)]
        simp only [List.any_cons, Nat.zero_lt_succ, decide_true, Bool.or_eq_true]
        exact .inr (List.any_eq_true.2 ⟨other, hmem, by simp⟩)
    | succ i =>
      have hhead : head.name ≠ shape.name := fun h =>
        hnodup.1 (h ▸ List.mem_map_of_mem (List.mem_of_getElem? hi))
      rw [List.dropWhile_cons_of_pos (by simpa using hhead)]
      cases j with
      | zero =>
        cases hj
        simp only [Nat.not_lt_zero, decide_false, List.any_eq_false]
        intro s hs h
        have hmem := (List.dropWhile_sublist _).subset hs
        exact hnodup.1 ((of_decide_eq_true h) ▸ List.mem_map_of_mem hmem)
      | succ j =>
        rw [ih hnodup.2 hi hj]
        simp

/-- A move of the first shape to the position of the second one puts it right next to it. -/
theorem moved_eq_putBeside (hnodup : (shapes.map (·.name)).Nodup) (hi : shapes[i]? = some shape)
    (hj : shapes[j]? = some other) {placement : Placement}
    (hmisplaced : Painting.misplaced placement i j = true) :
    Painting.moved i j shapes =
      putBeside placement other.name shape (without shape.name shapes) := by
  have hnodup' : ((shapes.eraseIdx i).map (·.name)).Nodup :=
    hnodup.sublist ((List.eraseIdx_sublist ..).map _)
  rw [← eraseIdx_eq_without hnodup hi, Painting.moved, hi]
  cases placement with
  | front =>
    have hlt : i < j := of_decide_eq_true hmisplaced
    have hj' : (shapes.eraseIdx i)[j - 1]? = some other := by
      rw [List.getElem?_eraseIdx_of_ge (by omega), Nat.sub_add_cancel (by omega), hj]
    rw [putBeside_eq_insertIdx hnodup' hj']
    simp only [Nat.sub_add_cancel (show 1 ≤ j by omega)]
  | behind =>
    have hlt : j < i := of_decide_eq_true hmisplaced
    have hj' : (shapes.eraseIdx i)[j]? = some other := by
      rw [List.getElem?_eraseIdx_of_lt hlt, hj]
    rw [putBeside_eq_insertIdx hnodup' hj']

end Distinct

/-! ## A painting and its sketch -/

namespace Painting

/-- What `its` refers to in a painting, by name. -/
def referent (painting : Painting) : Referent :=
  match painting.lastUsed with
  | .nothing => .nothing
  | .canvas => .canvas
  | .shape position =>
    match painting.shapes[position]? with
    | some shape => .shape shape.name
    | none => .nothing

/-- A painting without its positions. -/
def sketch (painting : Painting) : Sketch where
  canvas := painting.canvas
  shapes := painting.shapes
  lastUsed := painting.referent

section Simulation

variable {painting : Painting}

theorem find_sketch (h : Consistent painting) {name : Token} {position : Nat} {shape : Shape}
    (hshape : painting.shapes[position]? = some shape) (hname : shape.name = name.text) :
    painting.sketch.find name = .ok shape := by
  unfold Sketch.find
  rw [← hname, show painting.sketch.shapes = painting.shapes from rfl,
    find?_name h.nodup_names hshape]

theorem find_sketch_of_not_mem {name : Token}
    (hnone : ∀ shape ∈ painting.shapes, shape.name ≠ name.text) :
    painting.sketch.find name = .error ⟨.undeclared name.text, name.line⟩ := by
  have hfind : painting.sketch.shapes.find? (·.name = name.text) = none :=
    List.find?_eq_none.2 fun shape hmem h => hnone shape hmem (of_decide_eq_true h)
  unfold Sketch.find
  rw [hfind]

theorem sketch_declare (h : Consistent painting) (kind : Shape.Kind) (name : Token) :
    (painting.declare kind name).map sketch = painting.sketch.declare kind name := by
  have hany : painting.sketch.shapes.any (·.name = name.text) = true ↔
      name.text ∈ painting.index := by
    rw [h.mem_index_iff]
    simp [sketch]
  unfold Sketch.declare
  rcases declare_cases painting kind name with ⟨hmem, hdeclare⟩ | ⟨hnew, hdeclare⟩
  · rw [hdeclare, if_pos (hany.2 hmem)]
    rfl
  · rw [hdeclare, if_neg (fun hmem => hnew (hany.1 hmem))]
    simp [Except.map, sketch, referent, Shape.declared]

theorem sketch_place (h : Consistent painting) (first : Token) (placement : Placement)
    (second : Token) :
    (painting.place first placement second).map sketch =
      painting.sketch.place first placement second := by
  unfold Sketch.place
  rcases place_cases h first placement second with ⟨hsame, hplace⟩ | ⟨hsame, hnone, hplace⟩ |
    ⟨hsame, ⟨shape, hmem, hname⟩, hnone, hplace⟩ |
    ⟨hsame, i, j, shape, other, hi, hname, hj, hother, hplace⟩
  · rw [hplace, if_pos hsame]
    rfl
  · rw [hplace, if_neg hsame, find_sketch_of_not_mem hnone]
    rfl
  · obtain ⟨i, hi⟩ := List.mem_iff_getElem?.1 hmem
    rw [hplace, if_neg hsame, find_sketch h hi hname, find_sketch_of_not_mem hnone]
    rfl
  · have hne : shape.name ≠ other.name := by rwa [hname, hother]
    have hviolated : violated placement first.text second.text painting.sketch.shapes =
        misplaced placement i j := by
      rw [← hname, ← hother]
      cases placement with
      | front => exact paintedBefore_eq h.nodup_names hi hj hne
      | behind => exact paintedBefore_eq h.nodup_names hj hi hne.symm
    rw [hplace, if_neg hsame, find_sketch h hi hname, find_sketch h hj hother]
    simp only [bind, Except.bind, hviolated]
    by_cases hmisplaced : misplaced placement i j = true
    · obtain ⟨hilt, -⟩ := List.getElem?_eq_some_iff.1 hi
      obtain ⟨hjlt, -⟩ := List.getElem?_eq_some_iff.1 hj
      have hmoved := moved_eq_putBeside h.nodup_names hi hj hmisplaced
      have hat : (moved i j painting.shapes)[j]? = some shape := by
        rw [getElem?_moved hilt hjlt, origin_self, hi]
      rw [hmoved] at hat
      rw [if_pos hmisplaced, if_pos hmisplaced, ← hname, ← hother]
      simp only [Except.map, sketch, referent, move, hmoved, hat]
      rfl
    · rw [if_neg hmisplaced, if_neg hmisplaced, ← hname]
      simp only [Except.map, sketch, referent, hi]
      rfl

def subjectOf (painting : Painting) : Owner → Subject
  | .canvas => .canvas
  | .shape position => (painting.shapes[position]?).elim .canvas .shape

theorem subject_sketch (h : Consistent painting) (target : Target) :
    painting.sketch.subject target = (painting.owner target).map painting.subjectOf := by
  unfold Sketch.subject owner
  cases target.object? with
  | some object =>
    cases object with
    | canvas token => rfl
    | shape token name =>
      rcases h.lookup_cases name with ⟨i, shape, hi, hname, hlookup⟩ | ⟨hnone, hlookup⟩
      · simp only [find_sketch h hi hname, hlookup]
        simp [bind, Except.bind, pure, Except.pure, Except.map, subjectOf, hi]
      · simp only [find_sketch_of_not_mem hnone, hlookup]
        rfl
  | none =>
    simp only [sketch, referent]
    cases hused : painting.lastUsed with
    | nothing => rfl
    | canvas => rfl
    | shape position =>
      have hshape := List.getElem?_eq_getElem (h.lastUsed position hused)
      simp only [hshape, find?_name h.nodup_names hshape]
      simp [Except.map, subjectOf, hshape]

theorem slot_subjectOf {owner : Owner}
    (howner : ∀ position, owner = .shape position → position < painting.shapes.length)
    (attr : Attribute) (onBorder : Bool) :
    (painting.subjectOf owner).slot attr onBorder = painting.slot owner attr onBorder := by
  unfold Subject.slot slot
  cases Slot.of? attr onBorder with
  | none => rfl
  | some slot =>
    cases owner with
    | canvas => rfl
    | shape position =>
      have hshape := List.getElem?_eq_getElem (howner position rfl)
      simp [subjectOf, hshape, Subject.dimension?, dimension?]

theorem sketch_write (h : Consistent painting) {owner : Owner}
    (howner : ∀ position, owner = .shape position → position < painting.shapes.length)
    (slot : Slot) (value : Value) :
    (painting.write owner slot value).sketch =
      painting.sketch.write (painting.subjectOf owner) slot value := by
  cases owner with
  | canvas => rfl
  | shape position =>
    have hshape := List.getElem?_eq_getElem (howner position rfl)
    simp only [write, sketch, referent, subjectOf, hshape, Sketch.write, Option.elim,
      modify_eq_map h.nodup_names hshape, List.getElem?_map, Option.map_some, if_true,
      Shape.name_set]

theorem sketch_assign (h : Consistent painting) (target : Target) (literal : Literal) :
    (painting.assign target literal).map sketch = painting.sketch.assign target literal := by
  unfold assign Sketch.assign
  rw [subject_sketch h]
  cases howner : painting.owner target with
  | error fault => rfl
  | ok owner =>
    have hlt : ∀ position, owner = .shape position → position < painting.shapes.length :=
      fun position hposition => h.owner_lt (hposition ▸ howner)
    cases hvalue : literal.value with
    | error fault => rfl
    | ok value =>
      simp only [bind, Except.bind, Except.map, slot_subjectOf hlt]
      cases painting.slot owner target.attr.kind target.area?.isSome with
      | error cause => rfl
      | ok entry =>
        by_cases hdimension : value.dimension = entry.2
        · simp only [hdimension, if_true, ← sketch_write h hlt]
          rfl
        · simp only [hdimension, if_false]

/-- A clause does to a painting what it does to its sketch. -/
theorem sketch_step (h : Consistent painting) (clause : Clause) :
    (painting.step clause).map sketch = painting.sketch.step clause := by
  cases clause with
  | declare token name shape => exact sketch_declare h shape.kind name
  | place token first placement second => exact sketch_place h first placement.kind second
  | assign token target literal => exact sketch_assign h target literal

theorem sketch_run (h : Consistent painting) (clauses : List Clause) :
    (painting.run clauses).map sketch = painting.sketch.run clauses := by
  induction clauses generalizing painting with
  | nil => rfl
  | cons clause clauses ih =>
    unfold run Sketch.run
    rw [List.foldlM_cons, List.foldlM_cons, ← sketch_step h]
    cases hstep : painting.step clause with
    | error fault => rfl
    | ok next => exact ih (h.step hstep)

end Simulation

end Painting

/-- **Painting needs no positions**: every program, of whatever clauses, paints the same scene or
fails with the same fault when shapes are only known by their names. -/
theorem paint_eq_paintByName (program : Program) : program.paint = program.paintByName := by
  have hrun := Painting.sketch_run Painting.consistent_blank program.clauses
  unfold Program.paint Program.paintByName
  rw [show Sketch.blank = Painting.blank.sketch from rfl, ← hrun]
  cases Painting.blank.run program.clauses with
  | error fault => rfl
  | ok painting => rfl

end Tableau
