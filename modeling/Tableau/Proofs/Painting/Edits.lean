import Mathlib.Data.List.Perm.Basic
import Tableau.Proofs.Painting.Index

/-!
# What clauses do to a scene

`Scene.Edit` says what one clause can do to a scene: it declares a shape under a new name, it
arranges the shapes in another order, or it changes one slot of the canvas or of one shape to a
value of the dimension of that slot. Every clause that is obeyed is such an edit (`edit_of_step`),
so what all edits keep is true of every scene that is painted (`invariant_of_paint`). Two such
things are that the scene is well formed, with distinct names and every value of its dimension
(`wellFormed_of_paint`), and that the names are among the declared ones (`declared_of_paint`).
-/

namespace Tableau

/-! ## Well-formed scenes -/

/-- Every value of the shape has its dimension. -/
structure Shape.Sized (shape : Shape) : Prop where
  position : shape.position.dimension = 2
  size : shape.size.dimension = shape.kind.sizeDimension
  color : shape.color.dimension = 3
  borderSize : shape.borderSize.dimension = 1
  borderColor : shape.borderColor.dimension = 3

/-- Every value of the canvas has its dimension. -/
structure Canvas.Sized (canvas : Canvas) : Prop where
  size : canvas.size.dimension = 2
  color : canvas.color.dimension = 3
  borderSize : canvas.borderSize.dimension = 1
  borderColor : canvas.borderColor.dimension = 3

/-- No two shapes have one name, and every value has its dimension. -/
structure Scene.WellFormed (scene : Scene) : Prop where
  names : scene.names.Nodup
  canvas : scene.canvas.Sized
  shapes : ∀ shape ∈ scene.shapes, shape.Sized

section Sized

variable {shape : Shape} {canvas : Canvas} {slot : Slot} {value : Value}

theorem Shape.sized_iff :
    shape.Sized ↔ ∀ slot, (shape.get slot).dimension = shape.kind.dimension slot := by
  constructor
  · rintro ⟨hposition, hsize, hcolor, hborderSize, hborderColor⟩ slot
    cases slot <;> assumption
  · exact fun h => ⟨h .position, h .size, h .color, h .borderSize, h .borderColor⟩

theorem Canvas.sized_iff : canvas.Sized ↔ ∀ slot dimension,
    Canvas.dimension? slot = some dimension → (canvas.get slot).dimension = dimension := by
  constructor
  · rintro ⟨hsize, hcolor, hborderSize, hborderColor⟩ slot dimension hdimension
    cases slot <;> cases hdimension <;> assumption
  · exact fun h => ⟨h .size 2 rfl, h .color 3 rfl, h .borderSize 1 rfl, h .borderColor 3 rfl⟩

theorem Shape.sized_declared (kind : Shape.Kind) (name : String) : (declared kind name).Sized := by
  refine ⟨rfl, ?_, rfl, rfl, rfl⟩
  exact Value.dimension_filled 1 kind.sizeDimension

theorem Shape.Sized.set (h : shape.Sized) (hvalue : value.dimension = shape.kind.dimension slot) :
    (shape.set value slot).Sized := by
  rw [sized_iff] at *
  intro other
  rw [kind_set]
  by_cases hother : other = slot
  · rw [hother, get_set_self, hvalue]
  · rw [get_set_of_ne _ _ hother, h other]

theorem Canvas.Sized.set (h : canvas.Sized)
    (hvalue : Canvas.dimension? slot = some value.dimension) : (canvas.set value slot).Sized := by
  have hslot : slot ≠ .position := by
    rintro rfl
    cases hvalue
  rw [sized_iff] at *
  intro other dimension hdimension
  by_cases hother : other = slot
  · rw [hother, get_set_self _ _ hslot]
    rw [hother, hvalue] at hdimension
    exact Option.some.inj hdimension
  · rw [get_set_of_ne _ _ hother, h other dimension hdimension]

end Sized

/-! ## Edits -/

/-- The kind and the name of the shape that a clause declares. -/
def Clause.declared? : Clause → Option (Shape.Kind × String)
  | declare _ name shape => some (shape.kind, name.text)
  | place .. | assign .. => none

namespace Scene

/-- What one clause can do to a scene, by what it declares. -/
inductive Edit (scene : Scene) : Option (Shape.Kind × String) → Scene → Prop
  | declare {kind : Shape.Kind} {name : String} (hnew : name ∉ scene.names) :
    Edit scene (some (kind, name)) ⟨scene.canvas, scene.shapes ++ [.declared kind name]⟩
  | arrange {shapes : List Shape} (hshapes : shapes.Perm scene.shapes) :
    Edit scene none ⟨scene.canvas, shapes⟩
  | canvas {slot : Slot} {value : Value}
      (hvalue : Canvas.dimension? slot = some value.dimension) :
    Edit scene none ⟨scene.canvas.set value slot, scene.shapes⟩
  | shape {position : Nat} {shape : Shape} {slot : Slot} {value : Value}
      (hshape : scene.shapes[position]? = some shape)
      (hvalue : value.dimension = shape.kind.dimension slot) :
    Edit scene none ⟨scene.canvas, scene.shapes.modify position (·.set value slot)⟩

section Edit

variable {scene next : Scene} {new : Option (Shape.Kind × String)}

/-- What a write keeps of every shape it keeps of the list. -/
theorem map_modify_set {α : Type} {f : Shape → α} {value : Value} {slot : Slot}
    (hf : ∀ shape : Shape, f (shape.set value slot) = f shape) (shapes : List Shape)
    (position : Nat) : (shapes.modify position (·.set value slot)).map f = shapes.map f := by
  refine List.ext_getElem? fun i => ?_
  rw [List.getElem?_map, List.getElem?_map, List.getElem?_modify]
  split
  · cases shapes[i]? with
    | none => rfl
    | some shape => exact congrArg some (hf shape)
  · cases shapes[i]? <;> rfl

/-- The names after an edit are those before it and the new one. -/
theorem Edit.names_perm (h : scene.Edit new next) :
    next.names.Perm (scene.names ++ new.toList.map Prod.snd) := by
  cases h with
  | @declare kind name hnew =>
    rw [names, List.map_append]
    exact .refl _
  | arrange hshapes =>
    rw [Option.toList_none, List.map_nil, List.append_nil]
    exact hshapes.map _
  | canvas hvalue =>
    rw [Option.toList_none, List.map_nil, List.append_nil]
    exact .refl _
  | shape hshape hvalue =>
    rw [Option.toList_none, List.map_nil, List.append_nil, names,
      map_modify_set fun shape => shape.name_set _ _]
    exact .refl _

theorem Edit.wellFormed (h : scene.Edit new next) (hscene : scene.WellFormed) :
    next.WellFormed := by
  obtain ⟨hnames, hcanvas, hshapes⟩ := hscene
  have hnodup : next.names.Nodup := by
    refine h.names_perm.nodup_iff.2 ?_
    cases h with
    | @declare kind name hnew =>
      refine List.nodup_append.2 ⟨hnames, List.pairwise_singleton _ _, ?_⟩
      rintro old hold other hother rfl
      obtain rfl : old = name := List.mem_singleton.1 hother
      exact hnew hold
    | _ => rwa [Option.toList_none, List.map_nil, List.append_nil]
  cases h with
  | @declare kind name hnew =>
    exact ⟨hnodup, hcanvas, List.forall_mem_append.2
      ⟨hshapes, List.forall_mem_singleton.2 (Shape.sized_declared kind name)⟩⟩
  | arrange hperm => exact ⟨hnodup, hcanvas, fun shape hmem => hshapes shape (hperm.mem_iff.1 hmem)⟩
  | canvas hvalue => exact ⟨hnodup, hcanvas.set hvalue, hshapes⟩
  | @shape position shape slot value hshape hvalue =>
    refine ⟨hnodup, hcanvas, fun changed hmem => ?_⟩
    obtain ⟨i, hi⟩ := List.mem_iff_getElem?.1 hmem
    rw [List.getElem?_modify] at hi
    obtain ⟨old, hold, rfl⟩ := Option.map_eq_some_iff.1 hi
    have hsized := hshapes old (List.mem_of_getElem? hold)
    split
    · next hposition =>
      subst hposition
      obtain rfl := Option.some.inj (hshape.symm.trans hold)
      exact hsized.set hvalue
    · exact hsized

end Edit

end Scene

/-! ## Every clause is an edit -/

namespace Painting

variable {painting next : Painting}

theorem moved_perm {α : Type} {elements : List α} {i j : Nat} (hi : i < elements.length)
    (hj : j < elements.length) : (moved i j elements).Perm elements := by
  have hlength := List.length_eraseIdx_of_lt hi
  simp only [moved, List.getElem?_eq_getElem hi]
  exact (List.perm_insertIdx _ _ (by omega)).trans (List.getElem_cons_eraseIdx_perm hi)

theorem Consistent.mem_names_iff (h : Consistent painting) {name : String} :
    name ∈ painting.scene.names ↔ name ∈ painting.index := by
  rw [h.mem_index_iff]
  exact List.mem_map

/-- A placement only arranges the shapes. -/
theorem Consistent.perm_of_place (h : Consistent painting) {first second : Token}
    {placement : Placement} (hplace : painting.place first placement second = .ok next) :
    next.shapes.Perm painting.shapes ∧ next.canvas = painting.canvas := by
  obtain ⟨i, j, shape, hi, -, hjlt, rfl⟩ := h.place_eq_ok hplace
  obtain ⟨hilt, -⟩ := List.getElem?_eq_some_iff.1 hi
  split
  · exact ⟨moved_perm hilt hjlt, rfl⟩
  · exact ⟨.refl _, rfl⟩

/-- A clause that is obeyed edits the scene. -/
theorem edit_of_step (h : Consistent painting) {clause : Clause}
    (hstep : painting.step clause = .ok next) :
    painting.scene.Edit clause.declared? next.scene := by
  cases clause with
  | declare token name shape =>
    obtain ⟨hnew, rfl⟩ := declare_eq_ok hstep
    exact .declare fun hname => hnew (h.mem_names_iff.1 hname)
  | place token first placement second =>
    obtain ⟨hshapes, hcanvas⟩ := h.perm_of_place hstep
    have hscene : next.scene = ⟨painting.canvas, next.shapes⟩ :=
      congrArg (Scene.mk · next.shapes) hcanvas
    rw [hscene]
    exact .arrange hshapes
  | assign token target literal =>
    obtain ⟨owner, value, slot, howner, -, hslot, rfl⟩ := assign_eq_ok hstep
    obtain ⟨-, hdimension⟩ := slot_eq_ok hslot
    cases owner with
    | canvas => exact .canvas hdimension
    | shape position =>
      obtain ⟨shape, hshape, hvalue⟩ := Option.map_eq_some_iff.1 hdimension
      exact .shape hshape hvalue.symm

/-- What all edits by the clauses keep is kept by the run. -/
theorem invariant_of_run (kept : Scene → Prop) (h : Consistent painting) {clauses : List Clause}
    (hedit : ∀ clause ∈ clauses, ∀ scene next, scene.Edit clause.declared? next →
      kept scene → kept next)
    (hrun : painting.run clauses = .ok next) (hkept : kept painting.scene) : kept next.scene := by
  induction clauses generalizing painting with
  | nil =>
    cases hrun
    exact hkept
  | cons clause clauses ih =>
    obtain ⟨hfirst, hothers⟩ := List.forall_mem_cons.1 hedit
    obtain ⟨middle, hstep, hmore⟩ := run_cons_eq_ok hrun
    exact ih (h.step hstep) hothers hmore (hfirst _ _ (edit_of_step h hstep) hkept)

end Painting

namespace Program

variable {program : Program} {scene : Scene}

theorem invariant_of_paint (kept : Scene → Prop) (hblank : kept ⟨.blank, []⟩)
    (hedit : ∀ clause ∈ program.clauses, ∀ scene next, scene.Edit clause.declared? next →
      kept scene → kept next)
    (hpaint : program.paint = .ok scene) : kept scene := by
  obtain ⟨final, hrun, rfl⟩ := run_of_paint hpaint
  exact Painting.invariant_of_run kept Painting.consistent_blank hedit hrun hblank

/-- Every painted scene is well formed. -/
theorem wellFormed_of_paint (hpaint : program.paint = .ok scene) : scene.WellFormed := by
  have hblank : Scene.WellFormed ⟨.blank, []⟩ :=
    ⟨List.nodup_nil, ⟨rfl, rfl, rfl, rfl⟩, List.forall_mem_nil _⟩
  exact invariant_of_paint Scene.WellFormed hblank (fun _ _ _ _ hedit => hedit.wellFormed) hpaint

/-- Every name of a painted scene is declared in the program. -/
theorem declared_of_paint (hpaint : program.paint = .ok scene) :
    ∀ name ∈ scene.names, ∃ clause ∈ program.clauses, ∃ kind,
      clause.declared? = some (kind, name) := by
  refine invariant_of_paint (fun scene => ∀ name ∈ scene.names, ∃ clause ∈ program.clauses,
    ∃ kind, clause.declared? = some (kind, name)) (List.forall_mem_nil _) ?_ hpaint
  intro clause hclause scene next hedit hscene name hname
  rcases List.mem_append.1 (hedit.names_perm.mem_iff.1 hname) with hold | hnew
  · exact hscene name hold
  · obtain ⟨⟨kind, name'⟩, hmem, rfl⟩ := List.mem_map.1 hnew
    exact ⟨clause, hclause, kind, Option.mem_toList.1 hmem⟩

end Program

end Tableau
