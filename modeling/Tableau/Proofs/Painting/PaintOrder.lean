import Tableau.Proofs.Painting.Placing

/-!
# What moves a shape

The shapes of a painted scene are those that the program declares, no more and no fewer
(`Painting.labels_run`). A new shape comes in front of all others, and from then on only a placement
that names it first moves it past another one. `Clause.moved?` is that first name.

The step lemma is about names that a clause does not move: as far as these names go, the clause
leaves the paint order as it is, and puts those that it declares at the end (`filter_names_step`).
The same then holds of runs (`filter_names_run`). With two names, a run that moves neither of them
leaves the one on the same side of the other; with all names that are never moved, they stand in the
order in which they are declared.
-/

namespace Tableau

/-- The name of the shape that a clause moves, if it is not in its place yet. -/
def Clause.moved? : Clause → Option String
  | place _ first _ _ => some first.text
  | declare .. | assign .. => none

/-- What a declaration says of a shape, and nothing changes later. -/
def Shape.label (shape : Shape) : Shape.Kind × String := (shape.kind, shape.name)

@[simp] theorem Shape.label_set (shape : Shape) (value : Value) (slot : Slot) :
    (shape.set value slot).label = shape.label :=
  congrArg₂ Prod.mk (shape.kind_set value slot) (shape.name_set value slot)

namespace Program

/-- What the declarations of a program say, from the first to the last. -/
def declarations (program : Program) : List (Shape.Kind × String) :=
  program.clauses.filterMap Clause.declared?

/-- The names that the placements of a program move. -/
def movedNames (program : Program) : List String := program.clauses.filterMap Clause.moved?

end Program

/-- The first name stands on the given side of the second one. -/
def Scene.Shows (scene : Scene) (first : String) (placement : Placement) (second : String) : Prop :=
  ∃ i j, scene.names[i]? = some first ∧ scene.names[j]? = some second ∧ placement.Holds i j

/-! ## Two names of a list -/

/-- Two names, the one that is painted first in front. -/
def Placement.pair : Placement → String → String → List String
  | front, first, second => [second, first]
  | behind, first, second => [first, second]

section Pairs

variable {scene next : Scene} {first second : String} {placement : Placement} {keep : String → Bool}

theorem pair_sublist_iff {names : List String} : [first, second].Sublist names ↔
    ∃ i j : Nat, names[i]? = some first ∧ names[j]? = some second ∧ i < j := by
  induction names with
  | nil => simp
  | cons name names ih =>
    rw [List.sublist_cons_iff, ih]
    constructor
    · rintro (⟨i, j, hi, hj, hij⟩ | ⟨rest, hrest, hsublist⟩)
      · exact ⟨i + 1, j + 1, hi, hj, by omega⟩
      · obtain ⟨rfl, rfl⟩ := List.cons.inj hrest
        obtain ⟨j, hj⟩ := List.mem_iff_getElem?.1 (List.singleton_sublist.1 hsublist)
        exact ⟨0, j + 1, rfl, hj, by omega⟩
    · rintro ⟨i, j, hi, hj, hij⟩
      cases j with
      | zero => omega
      | succ j =>
        cases i with
        | zero =>
          obtain rfl := Option.some.inj hi
          exact .inr ⟨[second], rfl, List.singleton_sublist.2 (List.mem_of_getElem? hj)⟩
        | succ i => exact .inl ⟨i, j, hi, hj, by omega⟩

theorem Scene.shows_iff :
    scene.Shows first placement second ↔ (placement.pair first second).Sublist scene.names := by
  cases placement with
  | front =>
    rw [Placement.pair, pair_sublist_iff]
    constructor
    · rintro ⟨i, j, hi, hj, hji⟩
      exact ⟨j, i, hj, hi, hji⟩
    · rintro ⟨j, i, hj, hi, hji⟩
      exact ⟨i, j, hi, hj, hji⟩
  | behind => exact pair_sublist_iff.symm

/-- A list of names that are all kept is part of a list exactly if it is part of what is kept. -/
theorem sublist_filter_of_forall {part names : List String} (h : ∀ name ∈ part, keep name = true) :
    part.Sublist (names.filter keep) ↔ part.Sublist names := by
  constructor
  · exact fun hpart => hpart.trans List.filter_sublist
  · intro hpart
    rw [← List.filter_eq_self.2 h]
    exact hpart.filter keep

/-- Scenes that show two names in the same order show them on the same sides. -/
theorem Scene.shows_congr (hfirst : keep first = true) (hsecond : keep second = true)
    (hnames : next.names.filter keep = scene.names.filter keep) :
    next.Shows first placement second ↔ scene.Shows first placement second := by
  have hpair : ∀ name ∈ placement.pair first second, keep name = true := by
    cases placement <;> simp [Placement.pair, hfirst, hsecond]
  rw [shows_iff, shows_iff, ← sublist_filter_of_forall hpair, hnames,
    sublist_filter_of_forall hpair]

end Pairs

namespace Painting

/-! ## One clause -/

section Step

variable {painting next : Painting} {clause : Clause} {keep : String → Bool}

/-- A placement that is obeyed is of two names that stand somewhere. -/
theorem Consistent.hasAt_of_place (h : Consistent painting) {first second : Token}
    {placement : Placement} (hplace : painting.place first placement second = .ok next) :
    first.text ≠ second.text ∧
      ∃ i j, painting.HasAt first.text i ∧ painting.HasAt second.text j := by
  rcases place_cases h first placement second with ⟨-, herror⟩ | ⟨-, -, herror⟩ |
    ⟨-, -, -, herror⟩ | ⟨hne, i, j, shape, other, hi, hname, hj, hother, -⟩
  · simp [herror] at hplace
  · simp [herror] at hplace
  · simp [herror] at hplace
  · exact ⟨hne, i, j, h.hasAt_iff.2 ⟨shape, hi, hname⟩, h.hasAt_iff.2 ⟨other, hj, hother⟩⟩

/-- A placement that is obeyed has done what it says. -/
theorem Consistent.placed_of_step (h : Consistent painting) {token first second : Token}
    {word : Leaf Placement} (hstep : painting.step (.place token first word second) = .ok next) :
    ∃ i j i' j', painting.HasAt first.text i ∧ painting.HasAt second.text j ∧
      next.HasAt first.text i' ∧ next.HasAt second.text j' ∧
      Placed word.kind painting next i j i' j' := by
  obtain ⟨hne, i, j, hi, hj⟩ := h.hasAt_of_place hstep
  obtain ⟨found, i', j', hfound, hi', hj', -, hplaced⟩ := exists_placed word.kind h hne hi hj
  obtain rfl := Except.ok.inj (hfound.symm.trans hstep)
  exact ⟨i, j, i', j', hi, hj, hi', hj', hplaced⟩

/-- Behind a placement its first name is on the right side of the second one. -/
theorem Consistent.shows_of_step (h : Consistent painting) {token first second : Token}
    {word : Leaf Placement} (hstep : painting.step (.place token first word second) = .ok next) :
    next.scene.Shows first.text word.kind second.text := by
  obtain ⟨_, _, i, j, -, -, ⟨-, shape, hi, hname⟩, ⟨-, other, hj, hother⟩, hplaced⟩ :=
    h.placed_of_step hstep
  refine ⟨i, j, ?_, ?_, hplaced.holds⟩
  · rw [Scene.names, List.getElem?_map]
    exact (congrArg _ hi).trans (congrArg some hname)
  · rw [Scene.names, List.getElem?_map]
    exact (congrArg _ hj).trans (congrArg some hother)

/-- Of a list without one of its elements, those are kept that are kept of the list, if that one is
not. -/
theorem filter_eraseIdx {α : Type} {elements : List α} {element : α} {i : Nat} (kept : α → Bool)
    (hi : elements[i]? = some element) (h : kept element = false) :
    (elements.eraseIdx i).filter kept = elements.filter kept := by
  induction elements generalizing i with
  | nil => rfl
  | cons first elements ih =>
    cases i with
    | zero =>
      obtain rfl := Option.some.inj hi
      rw [List.eraseIdx_cons_zero, List.filter_cons_of_neg (by simp [h])]
    | succ i => rw [List.eraseIdx_cons_succ, List.filter_cons, List.filter_cons, ih hi]

/-- A clause leaves the names in their order of which it moves none, and puts those that it declares
at the end. -/
theorem filter_names_step (h : Consistent painting) (hstep : painting.step clause = .ok next)
    (hkeep : ∀ name ∈ clause.moved?, keep name = false) :
    next.scene.names.filter keep =
      painting.scene.names.filter keep ++ (clause.declared?.toList.map Prod.snd).filter keep := by
  cases clause with
  | declare token name word =>
    obtain ⟨-, rfl⟩ := declare_eq_ok hstep
    simp [scene, Scene.names, Clause.declared?, Shape.declared, List.filter_append]
  | place token first word second =>
    -- Without the shape that is moved, the list is the same before and after.
    obtain ⟨i, _, i', _, ⟨-, shape, hi, hname⟩, -, ⟨-, shape', hi', hname'⟩, -, hplaced⟩ :=
      h.placed_of_step hstep
    have hfirst : keep first.text = false := hkeep _ rfl
    have hbefore := filter_eraseIdx (keep ∘ Shape.name) hi (by simp [hname, hfirst])
    have hbehind := filter_eraseIdx (keep ∘ Shape.name) hi' (by simp [hname', hfirst])
    rw [hplaced.others, hbefore] at hbehind
    simp only [Scene.names, List.filter_map, scene, Clause.declared?, Option.toList_none,
      List.map_nil, List.filter_nil, List.append_nil]
    rw [hbehind]
  | assign token target literal =>
    obtain ⟨owner, value, slot, -, -, -, rfl⟩ := assign_eq_ok hstep
    have hnames : (painting.write owner slot value).scene.names = painting.scene.names := by
      cases owner with
      | canvas => rfl
      | shape position => exact Scene.map_modify_set (fun shape => shape.name_set _ _) _ _
    rw [hnames, Clause.declared?, Option.toList_none, List.map_nil, List.filter_nil,
      List.append_nil]

/-- What the shapes are, behind an edit, is what they were, and what is declared. -/
theorem labels_edit {scene changed : Scene} {new : Option (Shape.Kind × String)}
    (h : scene.Edit new changed) :
    (changed.shapes.map Shape.label).Perm (scene.shapes.map Shape.label ++ new.toList) := by
  cases h with
  | @declare kind name _ =>
    rw [List.map_append]
    exact .refl _
  | arrange hshapes =>
    rw [Option.toList_none, List.append_nil]
    exact hshapes.map _
  | canvas _ => rw [Option.toList_none, List.append_nil]
  | @shape position _ slot value _ _ =>
    rw [Option.toList_none, List.append_nil,
      Scene.map_modify_set fun shape => shape.label_set value slot]

end Step

/-! ## Runs -/

section Run

variable {painting next : Painting} {clauses : List Clause} {keep : String → Bool}

/-- Clauses one behind the other that are obeyed. -/
theorem run_append_eq_ok {first second : List Clause}
    (h : painting.run (first ++ second) = .ok next) :
    ∃ middle, painting.run first = .ok middle ∧ middle.run second = .ok next := by
  rw [run_append] at h
  cases hrun : painting.run first with
  | error fault => rw [hrun] at h; cases h
  | ok middle => exact ⟨middle, rfl, by rwa [hrun] at h⟩

/-- What the shapes are, behind a run, is what they were, and what is declared. -/
theorem labels_run (h : Consistent painting) (hrun : painting.run clauses = .ok next) :
    (next.shapes.map Shape.label).Perm
      (painting.shapes.map Shape.label ++ clauses.filterMap Clause.declared?) := by
  rw [List.filterMap_eq_flatMap_toList]
  induction clauses generalizing painting with
  | nil =>
    cases hrun
    rw [List.flatMap_nil, List.append_nil]
  | cons clause clauses ih =>
    obtain ⟨middle, hstep, hothers⟩ := run_cons_eq_ok hrun
    have hfirst := labels_edit (edit_of_step h hstep)
    rw [List.flatMap_cons, ← List.append_assoc]
    exact (ih (h.step hstep) hothers).trans (hfirst.append_right _)

/-- A run leaves the names in their order of which it moves none, and puts those that it declares at
the end, in the order in which it declares them. -/
theorem filter_names_run (h : Consistent painting) (hrun : painting.run clauses = .ok next)
    (hkeep : ∀ clause ∈ clauses, ∀ name ∈ clause.moved?, keep name = false) :
    next.scene.names.filter keep = painting.scene.names.filter keep ++
      ((clauses.filterMap Clause.declared?).map Prod.snd).filter keep := by
  rw [List.filterMap_eq_flatMap_toList]
  induction clauses generalizing painting with
  | nil =>
    cases hrun
    exact (List.append_nil _).symm
  | cons clause clauses ih =>
    obtain ⟨middle, hstep, hothers⟩ := run_cons_eq_ok hrun
    obtain ⟨hfirst, hkeep⟩ := List.forall_mem_cons.1 hkeep
    rw [ih (h.step hstep) hothers hkeep, filter_names_step h hstep hfirst, List.flatMap_cons,
      List.map_append, List.filter_append, List.append_assoc]

/-- A name that is there already is not declared again. -/
theorem Consistent.not_declared_of_mem (h : Consistent painting)
    (hrun : painting.run clauses = .ok next) {name : String} (hname : name ∈ painting.scene.names) :
    name ∉ (clauses.filterMap Clause.declared?).map Prod.snd := by
  have hnodup := (h.run hrun).nodup_names
  have hperm := (labels_run h hrun).map Prod.snd
  rw [List.map_map, List.map_append, List.map_map] at hperm
  obtain ⟨-, -, hdisjoint⟩ := List.nodup_append.1 (hperm.nodup_iff.1 hnodup)
  exact fun hdeclared => hdisjoint name hname name hdeclared rfl

/-- A run that moves neither of two names leaves the one on the same side of the other. -/
theorem shows_run (h : Consistent painting) (hrun : painting.run clauses = .ok next)
    {first second : String} (hfirst : first ∈ painting.scene.names)
    (hsecond : second ∈ painting.scene.names)
    (hmoved : ∀ clause ∈ clauses, clause.moved? ≠ some first ∧ clause.moved? ≠ some second)
    (placement : Placement) :
    next.scene.Shows first placement second ↔ painting.scene.Shows first placement second := by
  have hkeep : ∀ clause ∈ clauses, ∀ name ∈ clause.moved?,
      decide (name = first ∨ name = second) = false := by
    intro clause hclause name hname
    obtain ⟨hne, hne'⟩ := hmoved clause hclause
    refine decide_eq_false ?_
    rintro (rfl | rfl)
    · exact hne hname
    · exact hne' hname
  have hnames := filter_names_run h hrun hkeep
  have hnone : ((clauses.filterMap Clause.declared?).map Prod.snd).filter
      (fun name => decide (name = first ∨ name = second)) = [] := by
    refine List.filter_eq_nil_iff.2 fun name hdeclared hname => ?_
    rcases of_decide_eq_true hname with rfl | rfl
    · exact h.not_declared_of_mem hrun hfirst hdeclared
    · exact h.not_declared_of_mem hrun hsecond hdeclared
  rw [hnone, List.append_nil] at hnames
  exact Scene.shows_congr (by simp) (by simp) hnames

end Run

end Painting

namespace Program

/-- **Shapes keep their places**, in every program that is painted. The scene has the shapes that
are declared, each one once. A clause leaves two shapes that are there in their order, unless it is
a placement that names one of them first. So what a placement says is true of the scene, if no later
one names either of its two shapes first; and the shapes that no placement names first stand in the
order in which they are declared. -/
theorem shapes_keep_places {program : Program} {scene : Scene} (h : program.paint = .ok scene) :
    (scene.shapes.map Shape.label).Perm program.declarations ∧
    (∀ earlier clause later, program.clauses = earlier ++ clause :: later →
      ∃ before next, Painting.blank.run earlier = .ok before ∧ before.step clause = .ok next ∧
        ∀ first ∈ before.scene.names, ∀ second ∈ before.scene.names,
          clause.moved? ≠ some first → clause.moved? ≠ some second → ∀ placement,
            (next.scene.Shows first placement second ↔
              before.scene.Shows first placement second)) ∧
    (∀ earlier token first word second later,
      program.clauses = earlier ++ .place token first word second :: later →
      (∀ clause ∈ later, clause.moved? ≠ some first.text ∧ clause.moved? ≠ some second.text) →
        scene.Shows first.text word.kind second.text) ∧
    scene.names.filter (· ∉ program.movedNames) =
      (program.declarations.map Prod.snd).filter (· ∉ program.movedNames) := by
  obtain ⟨final, hrun, rfl⟩ := run_of_paint h
  have hconsistent := Painting.consistent_blank
  refine ⟨Painting.labels_run hconsistent hrun, ?_, ?_, ?_⟩
  · intro earlier clause later hclauses
    rw [hclauses] at hrun
    obtain ⟨before, hbefore, hrest⟩ := Painting.run_append_eq_ok hrun
    obtain ⟨next, hstep, -⟩ := Painting.run_cons_eq_ok hrest
    refine ⟨before, next, hbefore, hstep, fun first hfirst second hsecond hne hne' => ?_⟩
    have hone : before.run [clause] = .ok next := by
      rw [Painting.run_cons, hstep]
      rfl
    exact Painting.shows_run (hconsistent.run hbefore) hone hfirst hsecond
      (List.forall_mem_singleton.2 ⟨hne, hne'⟩)
  · intro earlier token first word second later hclauses hlater
    rw [hclauses] at hrun
    obtain ⟨before, hbefore, hrest⟩ := Painting.run_append_eq_ok hrun
    obtain ⟨next, hstep, hothers⟩ := Painting.run_cons_eq_ok hrest
    have hnext := (hconsistent.run hbefore).step hstep
    have hshows := (hconsistent.run hbefore).shows_of_step hstep
    obtain ⟨i, j, hi, hj, -⟩ := id hshows
    exact (Painting.shows_run hnext hothers (List.mem_of_getElem? hi) (List.mem_of_getElem? hj)
      hlater word.kind).2 hshows
  · have hkeep : ∀ clause ∈ program.clauses, ∀ name ∈ clause.moved?,
        decide (name ∉ program.movedNames) = false := by
      intro clause hclause name hname
      exact decide_eq_false fun hfree => hfree (List.mem_filterMap.2 ⟨clause, hclause, hname⟩)
    exact Painting.filter_names_run hconsistent hrun hkeep

/-- The first of three shapes goes in front of the second one; behind that the third one gets a
size. -/
theorem shapes_keep_places_of_one_move :
    let A : Token := ⟨.name, "A", 1⟩
    let B : Token := ⟨.name, "B", 1⟩
    let C : Token := ⟨.name, "C", 1⟩
    let circle : Leaf Shape.Kind := ⟨⟨.shape .circle, "circle", 1⟩, .circle⟩
    let front : Leaf Placement := ⟨⟨.within, "in", 2⟩, .front⟩
    let size : Leaf Attribute := ⟨⟨.attr .size, "size", 3⟩, .size⟩
    let five : Token := ⟨.number, "5", 3⟩
    let program : Program := ⟨A, [
      ⟨A, [.declare A A circle, .declare B B circle, .declare C C circle]⟩,
      ⟨A, [.place A A front B, .assign C (.plain C size (.shape C C)) (.number five five)]⟩]⟩
    ∃ scene, program.paint = .ok scene ∧ scene.names = ["B", "A", "C"] ∧
      (scene.shapes.map Shape.label).Perm [(.circle, "A"), (.circle, "B"), (.circle, "C")] ∧
      scene.Shows "A" .front "B" ∧
      scene.names.filter (· ∉ program.movedNames) = ["B", "C"] := by
  intro A B C circle front size five program
  have hnames : program.paint.toOption.map Scene.names = some ["B", "A", "C"] := by decide +kernel
  cases hpaint : program.paint with
  | error fault => rw [hpaint] at hnames; cases hnames
  | ok scene =>
    rw [hpaint] at hnames
    obtain ⟨hperm, -, hplaced, hfree⟩ := shapes_keep_places hpaint
    refine ⟨scene, rfl, Option.some.inj hnames, hperm, ?_, hfree⟩
    refine hplaced [.declare A A circle, .declare B B circle, .declare C C circle] A A front B
      [.assign C (.plain C size (.shape C C)) (.number five five)] rfl ?_
    exact List.forall_mem_singleton.2 ⟨nofun, nofun⟩

end Program

end Tableau
