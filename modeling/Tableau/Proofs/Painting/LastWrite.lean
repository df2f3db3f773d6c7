import Tableau.Proofs.Painting.ByName
import Tableau.Proofs.Painting.PaintOrder

/-!
# The last write wins

What a program makes of an object does not depend on where its shapes stand when they are assigned
to. Every slot of a shape has the value of the last literal that the program gives to it, or else
the value that it is declared with, and the slots of the canvas are determined in the same way
(`Program.last_write_wins`). Who is meant by `its` is said by `Program.explicit`, so the literals
are looked for in clauses that name their objects (`lastGiven?`).

`Painting.Settled` says this of a painting and of the clauses that were obeyed. A declaration and a
placement give nothing to a slot; an assignment changes one slot of the shape that bears a name, and
it is the one that it is looked for under from then on (`Settled.step`).
-/

namespace Tableau

/-! ## What clauses give -/

/-- An object by its name. -/
def Object.referent : Object → Referent
  | shape _ name => .shape name.text
  | canvas _ => .canvas

/-- The literal that a clause gives to a slot of an object, if it names the object and addresses the
slot. -/
def Clause.gives? (object : Referent) (slot : Slot) : Clause → Option Literal
  | assign _ target literal =>
    if target.object?.map Object.referent = some object ∧
        Slot.of? target.attr.kind target.area?.isSome = some slot then some literal
    else none
  | declare .. | place .. => none

/-- The last literal that clauses give to a slot of an object. -/
def lastGiven? (object : Referent) (slot : Slot) (clauses : List Clause) : Option Literal :=
  clauses.reverse.findSome? (Clause.gives? object slot)

/-- The last literal that a program gives to a slot of an object, be it by its name or by `its`. -/
def Program.lastGiven? (program : Program) (object : Referent) (slot : Slot) : Option Literal :=
  Tableau.lastGiven? object slot program.explicit.clauses

/-- The value of a literal, or the one that was there at the start. -/
def Literal.valueOr (start : Value) : Option Literal → Except Fault Value
  | some literal => literal.value
  | none => .ok start

section Gives

variable {object : Referent} {slot other : Slot} {clause : Clause} {clauses : List Clause}

theorem lastGiven?_concat : lastGiven? object slot (clauses ++ [clause]) =
    (clause.gives? object slot).or (lastGiven? object slot clauses) := by
  unfold lastGiven?
  rw [List.reverse_append, List.reverse_singleton, List.singleton_append, List.findSome?_cons]
  cases clause.gives? object slot <;> rfl

theorem lastGiven?_concat_of_none (h : clause.gives? object slot = none) :
    lastGiven? object slot (clauses ++ [clause]) = lastGiven? object slot clauses := by
  rw [lastGiven?_concat, h, Option.none_or]

variable {named : Referent} {token : Token} {target : Target} {literal : Literal}

/-- An assignment is the last one to the slot of its object that it addresses. -/
theorem lastGiven?_assign_self (hobject : target.object?.map Object.referent = some named)
    (hslot : Slot.of? target.attr.kind target.area?.isSome = some slot) :
    lastGiven? named slot (clauses ++ [.assign token target literal]) = some literal := by
  rw [lastGiven?_concat, Clause.gives?, if_pos ⟨hobject, hslot⟩, Option.some_or]

/-- An assignment is none to other objects or to other slots. -/
theorem lastGiven?_assign_of_ne (hobject : target.object?.map Object.referent = some named)
    (hslot : Slot.of? target.attr.kind target.area?.isSome = some slot)
    (hne : named ≠ object ∨ slot ≠ other) :
    lastGiven? object other (clauses ++ [.assign token target literal]) =
      lastGiven? object other clauses := by
  refine lastGiven?_concat_of_none (if_neg ?_)
  rintro ⟨hobject', hslot'⟩
  rcases hne with hne | hne
  · exact hne (Option.some.inj (hobject.symm.trans hobject'))
  · exact hne (Option.some.inj (hslot.symm.trans hslot'))

end Gives

/-- A shape is its label with what is in its slots. -/
theorem Shape.ext_get {shape other : Shape} (hlabel : shape.label = other.label)
    (hget : ∀ slot, shape.get slot = other.get slot) : shape = other := by
  obtain ⟨hkind, hname⟩ := Prod.mk.inj hlabel
  have hposition := hget .position
  have hsize := hget .size
  have hcolor := hget .color
  have hborderSize := hget .borderSize
  have hborderColor := hget .borderColor
  cases shape
  cases other
  simp_all [Shape.get]

/-- A canvas is what is in its slots. -/
theorem Canvas.ext_get {canvas other : Canvas}
    (hget : ∀ slot, canvas.get slot = other.get slot) : canvas = other := by
  have hsize := hget .size
  have hcolor := hget .color
  have hborderSize := hget .borderSize
  have hborderColor := hget .borderColor
  cases canvas
  cases other
  simp_all [Canvas.get]

namespace Painting

variable {painting next : Painting} {obeyed : List Clause} {clause : Clause}

/-! ## Assignments by name -/

section Assign

variable {target : Target} {literal : Literal} {token name : Token}

/-- An assignment to the canvas sets the slot that it addresses. -/
theorem assign_canvas (hobject : target.object? = some (.canvas token))
    (h : painting.assign target literal = .ok next) :
    ∃ value slot, literal.value = .ok value ∧
      Slot.of? target.attr.kind target.area?.isSome = some slot ∧ slot ≠ .position ∧
      next.canvas = painting.canvas.set value slot ∧ next.shapes = painting.shapes := by
  obtain ⟨owner, value, slot, howner, hvalue, hfound, rfl⟩ := assign_eq_ok h
  unfold Painting.owner at howner
  simp only [hobject, Except.ok.injEq] at howner
  subst howner
  obtain ⟨hslot, hdimension⟩ := slot_eq_ok hfound
  refine ⟨value, slot, hvalue, hslot, ?_, rfl, rfl⟩
  rintro rfl
  cases hdimension

/-- An assignment to a shape sets the slot that it addresses, of the shape that bears the name. -/
theorem Consistent.assign_shape (h : Consistent painting)
    (hobject : target.object? = some (.shape token name))
    (hassign : painting.assign target literal = .ok next) :
    ∃ value slot, literal.value = .ok value ∧
      Slot.of? target.attr.kind target.area?.isSome = some slot ∧
      name.text ∈ painting.scene.names ∧ next.canvas = painting.canvas ∧
      next.shapes = painting.shapes.map fun shape =>
        if shape.name = name.text then shape.set value slot else shape := by
  obtain ⟨owner, value, slot, howner, hvalue, hfound, rfl⟩ := assign_eq_ok hassign
  obtain ⟨hslot, -⟩ := slot_eq_ok hfound
  unfold Painting.owner at howner
  rcases h.lookup_cases name with ⟨position, shape, hshape, hname, hlookup⟩ | ⟨-, hlookup⟩
  · simp only [hobject, hlookup, bind, Except.bind, pure, Except.pure, Except.ok.injEq] at howner
    subst howner
    refine ⟨value, slot, hvalue, hslot, ?_, rfl, ?_⟩
    · exact List.mem_map.2 ⟨shape, List.mem_of_getElem? hshape, hname⟩
    · rw [← hname]
      exact modify_eq_map h.nodup_names hshape _
  · simp [hobject, hlookup, bind, Except.bind] at howner

end Assign

/-! ## Settled paintings -/

/-- Every slot has the value of the last literal that the clauses give to it, and those give to
shapes only that are there. -/
structure Settled (painting : Painting) (obeyed : List Clause) : Prop where
  canvas : ∀ slot, Literal.valueOr (Canvas.blank.get slot) (lastGiven? .canvas slot obeyed) =
    .ok (painting.canvas.get slot)
  shapes : ∀ shape ∈ painting.shapes, ∀ slot,
    Literal.valueOr ((Shape.declared shape.kind shape.name).get slot)
      (lastGiven? (.shape shape.name) slot obeyed) = .ok (shape.get slot)
  given : ∀ name slot, name ∉ painting.scene.names → lastGiven? (.shape name) slot obeyed = none

theorem settled_blank : blank.Settled [] where
  canvas _ := rfl
  shapes := List.forall_mem_nil _
  given _ _ _ := rfl

namespace Settled

/-- What has no shape behind a clause had none before it, and has been given nothing. -/
theorem given_of_step (h : painting.Settled obeyed) (hconsistent : Consistent painting)
    (hstep : painting.step clause = .ok next) {name : String} (slot : Slot)
    (hname : name ∉ next.scene.names) :
    name ∉ painting.scene.names ∧ lastGiven? (.shape name) slot obeyed = none := by
  have hold : name ∉ painting.scene.names := fun hold =>
    hname ((edit_of_step hconsistent hstep).names_perm.mem_iff.2 (List.mem_append_left _ hold))
  exact ⟨hold, h.given name slot hold⟩

theorem declare (h : painting.Settled obeyed) (hconsistent : Consistent painting)
    {token name : Token} {word : Leaf Shape.Kind}
    (hstep : painting.step (.declare token name word) = .ok next) :
    next.Settled (obeyed ++ [.declare token name word]) := by
  have hlast : ∀ object slot, lastGiven? object slot (obeyed ++ [.declare token name word]) =
      lastGiven? object slot obeyed := fun _ _ => lastGiven?_concat_of_none rfl
  obtain ⟨hnew, rfl⟩ := declare_eq_ok hstep
  refine ⟨fun slot => ?_, fun shape hshape slot => ?_, fun other slot hother => ?_⟩
  · rw [hlast]
    exact h.canvas slot
  · rw [hlast]
    rcases List.mem_append.1 hshape with hold | hlast
    · exact h.shapes shape hold slot
    · -- Nothing has been given to a shape of this name.
      obtain rfl := List.mem_singleton.1 hlast
      have hnone := h.given name.text slot fun hname => hnew (hconsistent.mem_names_iff.1 hname)
      show Literal.valueOr _ (lastGiven? (.shape name.text) slot obeyed) = _
      rw [hnone]
      rfl
  · rw [hlast]
    exact (h.given_of_step hconsistent hstep slot hother).2

theorem place (h : painting.Settled obeyed) (hconsistent : Consistent painting)
    {token first second : Token} {word : Leaf Placement}
    (hstep : painting.step (.place token first word second) = .ok next) :
    next.Settled (obeyed ++ [.place token first word second]) := by
  have hlast : ∀ object slot, lastGiven? object slot (obeyed ++ [.place token first word second]) =
      lastGiven? object slot obeyed := fun _ _ => lastGiven?_concat_of_none rfl
  obtain ⟨hshapes, hcanvas⟩ := hconsistent.perm_of_place hstep
  refine ⟨fun slot => ?_, fun shape hshape slot => ?_, fun other slot hother => ?_⟩
  · rw [hlast, hcanvas]
    exact h.canvas slot
  · rw [hlast]
    exact h.shapes shape (hshapes.mem_iff.1 hshape) slot
  · rw [hlast]
    exact (h.given_of_step hconsistent hstep slot hother).2

theorem assign_canvas (h : painting.Settled obeyed) (hconsistent : Consistent painting)
    {token start : Token} {target : Target} {literal : Literal}
    (hobject : target.object? = some (.canvas start))
    (hstep : painting.step (.assign token target literal) = .ok next) :
    next.Settled (obeyed ++ [.assign token target literal]) := by
  obtain ⟨value, slot, hvalue, hslot, hposition, hcanvas, hshapes⟩ :=
    Painting.assign_canvas hobject hstep
  have hnamed : target.object?.map Object.referent = some .canvas := by
    rw [hobject]
    rfl
  have hapart : ∀ name, Referent.canvas ≠ .shape name := fun _ => nofun
  refine ⟨fun other => ?_, fun shape hshape other => ?_, fun name other hname => ?_⟩
  · rw [hcanvas]
    by_cases hother : slot = other
    · subst hother
      rw [lastGiven?_assign_self hnamed hslot, Canvas.get_set_self _ _ hposition]
      exact hvalue
    · rw [lastGiven?_assign_of_ne hnamed hslot (.inr hother),
        Canvas.get_set_of_ne _ _ (Ne.symm hother)]
      exact h.canvas other
  · rw [lastGiven?_assign_of_ne hnamed hslot (.inl (hapart _))]
    exact h.shapes shape (hshapes ▸ hshape) other
  · rw [lastGiven?_assign_of_ne hnamed hslot (.inl (hapart _))]
    exact (h.given_of_step hconsistent hstep other hname).2

theorem assign_shape (h : painting.Settled obeyed) (hconsistent : Consistent painting)
    {token start name : Token} {target : Target} {literal : Literal}
    (hobject : target.object? = some (.shape start name))
    (hstep : painting.step (.assign token target literal) = .ok next) :
    next.Settled (obeyed ++ [.assign token target literal]) := by
  obtain ⟨value, slot, hvalue, hslot, hname, hcanvas, hshapes⟩ :=
    hconsistent.assign_shape hobject hstep
  have hnamed : target.object?.map Object.referent = some (.shape name.text) := by
    rw [hobject]
    rfl
  have hapart : ∀ {other}, other ≠ name.text → Referent.shape name.text ≠ .shape other :=
    fun hother hsame => hother (Referent.shape.inj hsame).symm
  refine ⟨fun other => ?_, fun shape hshape other => ?_, fun missing other hmissing => ?_⟩
  · have hne : Referent.shape name.text ≠ .canvas := nofun
    rw [lastGiven?_assign_of_ne hnamed hslot (.inl hne), hcanvas]
    exact h.canvas other
  · rw [hshapes] at hshape
    obtain ⟨old, hold, rfl⟩ := List.mem_map.1 hshape
    by_cases hsame : old.name = name.text
    · rw [if_pos hsame, Shape.name_set, Shape.kind_set]
      by_cases hother : slot = other
      · subst hother
        rw [hsame, lastGiven?_assign_self hnamed hslot, Shape.get_set_self]
        exact hvalue
      · rw [lastGiven?_assign_of_ne hnamed hslot (.inr hother),
          Shape.get_set_of_ne _ _ (Ne.symm hother)]
        exact h.shapes old hold other
    · rw [if_neg hsame, lastGiven?_assign_of_ne hnamed hslot (.inl (hapart hsame))]
      exact h.shapes old hold other
  · obtain ⟨hold, hnone⟩ := h.given_of_step hconsistent hstep other hmissing
    have hother : missing ≠ name.text := fun heq => hold (heq ▸ hname)
    rw [lastGiven?_assign_of_ne hnamed hslot (.inl (hapart hother)), hnone]

/-- A clause that names its subject leaves the painting settled. -/
theorem step (h : painting.Settled obeyed) (hconsistent : Consistent painting)
    (hsubject : clause.subject?.isSome) (hstep : painting.step clause = .ok next) :
    next.Settled (obeyed ++ [clause]) := by
  cases clause with
  | declare token name word => exact h.declare hconsistent hstep
  | place token first word second => exact h.place hconsistent hstep
  | assign token target literal =>
    obtain ⟨object, hobject⟩ := Option.isSome_iff_exists.1 hsubject
    cases object with
    | canvas start => exact h.assign_canvas hconsistent hobject hstep
    | shape start name => exact h.assign_shape hconsistent hobject hstep

/-- Clauses that name their subjects leave the painting settled. -/
theorem run (h : painting.Settled obeyed) (hconsistent : Consistent painting)
    {clauses : List Clause} (hsubjects : ∀ clause ∈ clauses, clause.subject?.isSome)
    (hrun : painting.run clauses = .ok next) : next.Settled (obeyed ++ clauses) := by
  induction clauses generalizing painting obeyed with
  | nil =>
    cases hrun
    rwa [List.append_nil]
  | cons clause clauses ih =>
    obtain ⟨middle, hstep, hothers⟩ := run_cons_eq_ok hrun
    obtain ⟨hfirst, hsubjects⟩ := List.forall_mem_cons.1 hsubjects
    rw [List.append_cons]
    exact ih (h.step hconsistent hfirst hstep) (hconsistent.step hstep) hsubjects hothers

end Settled

end Painting

namespace Program

/-- The painting of a program is settled behind its clauses, with every object said outright. -/
theorem settled_of_paint {program : Program} {scene : Scene} (h : program.paint = .ok scene) :
    ∃ final : Painting, final.scene = scene ∧ Painting.Consistent final ∧
      final.Settled program.explicit.clauses ∧
      (final.shapes.map Shape.label).Perm program.declarations := by
  obtain ⟨final, hrun, rfl⟩ := run_of_paint h
  have hblank := Painting.consistent_blank
  have hexplicit : Painting.blank.run program.explicit.clauses = .ok final := by
    rw [clauses_explicit, Painting.run_explicitBehind hblank Painting.refersTo_blank, hrun]
  have hsubjects : ∀ clause ∈ program.explicit.clauses, clause.subject?.isSome := by
    rw [clauses_explicit]
    exact Painting.subject_of_run hblank Painting.refersTo_blank hrun
  exact ⟨final, rfl, hblank.run hrun, Painting.settled_blank.run hblank hsubjects hexplicit,
    Painting.labels_run hblank hrun⟩

/-- **The last write wins**, and nothing else is touched: in the scene of a program every shape has
the kind it is declared with, and each slot of a shape or of the canvas has the value of the last
literal that the program gives to it, or else the value it has at the start. -/
theorem last_write_wins {program : Program} {scene : Scene} (h : program.paint = .ok scene) :
    (∀ kind name, (kind, name) ∈ program.declarations →
      ∃ shape, scene.shape? name = some shape ∧ shape.kind = kind ∧
        ∀ slot, Literal.valueOr ((Shape.declared kind name).get slot)
          (program.lastGiven? (.shape name) slot) = .ok (shape.get slot)) ∧
    ∀ slot, Literal.valueOr (Canvas.blank.get slot) (program.lastGiven? .canvas slot) =
      .ok (scene.canvas.get slot) := by
  obtain ⟨final, rfl, hconsistent, hsettled, hlabels⟩ := settled_of_paint h
  refine ⟨fun kind name hdeclared => ?_, hsettled.canvas⟩
  obtain ⟨shape, hshape, hlabel⟩ := List.mem_map.1 (hlabels.mem_iff.2 hdeclared)
  obtain ⟨rfl, rfl⟩ := Prod.mk.inj hlabel
  obtain ⟨position, hposition⟩ := List.mem_iff_getElem?.1 hshape
  exact ⟨shape, find?_name hconsistent.nodup_names hposition, rfl, hsettled.shapes shape hshape⟩

/-- A shape is given a size, moves, and is given another one by `its`; then the canvas gets a
border. -/
theorem last_write_wins_behind_a_move :
    let A : Token := ⟨.name, "A", 1⟩
    let B : Token := ⟨.name, "B", 1⟩
    let circle : Leaf Shape.Kind := ⟨⟨.shape .circle, "circle", 1⟩, .circle⟩
    let square : Leaf Shape.Kind := ⟨⟨.shape .square, "square", 1⟩, .square⟩
    let size : Leaf Attribute := ⟨⟨.attr .size, "size", 2⟩, .size⟩
    let border : Leaf Area := ⟨⟨.area .border, "border", 4⟩, .border⟩
    let front : Leaf Placement := ⟨⟨.within, "in", 3⟩, .front⟩
    let canvas : Token := ⟨.canvas, "canvas", 4⟩
    let number (text : String) : Literal := .number ⟨.number, text, 2⟩ ⟨.number, text, 2⟩
    let program : Program := ⟨A, [
      ⟨A, [.declare A A circle, .declare B B square]⟩,
      ⟨A, [.assign A (.plain A size (.shape A A)) (number "5"), .place A A front B,
        .assign A (.implicit A size) (number "7"),
        .assign A (.area A size border (.canvas canvas)) (number "2")]⟩]⟩
    ∃ scene, program.paint = .ok scene ∧
      (∃ shape, scene.shape? "A" = some shape ∧ shape.kind = .circle ∧
        (number "7").value = .ok (shape.get .size) ∧
        shape.get .color = (Shape.declared .circle "A").get .color) ∧
      (number "2").value = .ok (scene.canvas.get .borderSize) := by
  intro A B circle square size border front canvas number program
  have hpaints : program.paint.toOption.isSome = true := by decide +kernel
  cases hpaint : program.paint with
  | error fault => rw [hpaint] at hpaints; cases hpaints
  | ok scene =>
    obtain ⟨hshapes, hcanvas⟩ := last_write_wins hpaint
    obtain ⟨shape, hshape, hkind, hslots⟩ := hshapes .circle "A" (by decide)
    exact ⟨scene, rfl, ⟨shape, hshape, hkind, hslots .size, (Except.ok.inj (hslots .color)).symm⟩,
      hcanvas .borderSize⟩

end Program

end Tableau
