import Mathlib.Data.List.Nodup
import Tableau.Proofs.Painting.Check
import Tableau.Proofs.Painting.LastWrite

/-!
# Paint order and values do not meet

A program does two things to its shapes: it stacks them, and it gives them values. Without its
assignments it stacks the shapes as before; without its placements it gives them the values they had
before, as long as no `its` in it could now refer to another object
(`Program.stacking_and_values_independent`).

That the shorter program is painted at all is seen by checking it. What is known at a clause is the
kinds of the declared names, and those are the same with and without clauses that declare nothing
(`Declarations.check_filter`). The labels of the shapes in paint order are a fold of their own over
the clauses, which passes assignments by (`Clause.arrange`, `Painting.labels_run_eq`). The values
are known from the last literals (`Painting.Settled`), which do not come from placements.
-/

namespace Tableau

/-! ## Programs with clauses left out -/

namespace Clause

def isPlacement : Clause → Bool
  | place .. => true
  | declare .. | assign .. => false

def isAssignment : Clause → Bool
  | assign .. => true
  | declare .. | place .. => false

/-- Whether the clause leaves it to `its` what it goes to. -/
def saysIts : Clause → Bool
  | assign _ target _ => target.object?.isNone
  | declare .. | place .. => false

variable {clause : Clause}

theorem declared?_of_isAssignment (h : clause.isAssignment = true) : clause.declared? = none := by
  cases clause with
  | assign => rfl
  | declare | place => cases h

theorem declared?_of_isPlacement (h : clause.isPlacement = true) : clause.declared? = none := by
  cases clause with
  | place => rfl
  | declare | assign => cases h

theorem gives?_of_isPlacement (h : clause.isPlacement = true) (object : Referent) (slot : Slot) :
    clause.gives? object slot = none := by
  cases clause with
  | place => rfl
  | declare | assign => cases h

/-- Only assignments say `its`. -/
theorem isAssignment_of_saysIts (h : clause.saysIts = true) : clause.isAssignment = true := by
  cases clause with
  | assign => rfl
  | declare | place => cases h

theorem subject?_of_not_saysIts (h : clause.saysIts = false) : clause.subject?.isSome := by
  cases clause with
  | assign => exact Option.isNone_eq_false_iff.1 h
  | declare | place => rfl

end Clause

/-- The program without the clauses that are not to be kept. Its sentences stay, if only as empty
ones. -/
def Program.filter (keep : Clause → Bool) (program : Program) : Program where
  token := program.token
  sentences := program.sentences.map fun sentence =>
    { sentence with clauses := sentence.clauses.filter keep }

section Filter

variable {keep : Clause → Bool} {clauses : List Clause}

theorem Program.clauses_filter (keep : Clause → Bool) (program : Program) :
    (program.filter keep).clauses = program.clauses.filter keep := by
  unfold Program.clauses Program.filter
  rw [List.flatMap_map, List.filter_flatMap]

/-- Elements that are mapped to nothing can be left out of those that are mapped. -/
theorem filterMap_filter_of_none {β : Type} {f : Clause → Option β}
    (h : ∀ clause, keep clause = false → f clause = none) :
    (clauses.filter keep).filterMap f = clauses.filterMap f := by
  rw [List.filterMap_filter]
  refine List.filterMap_congr fun clause _ => ?_
  split
  · rfl
  · next hkeep => exact (h clause (Bool.eq_false_iff.2 hkeep)).symm

/-- Clauses that give nothing can be left out of those that give a last literal. -/
theorem lastGiven?_filter {object : Referent} {slot : Slot}
    (h : ∀ clause, keep clause = false → clause.gives? object slot = none) :
    lastGiven? object slot (clauses.filter keep) = lastGiven? object slot clauses := by
  unfold lastGiven?
  rw [← List.head?_filterMap, ← List.head?_filterMap, ← List.filter_reverse,
    filterMap_filter_of_none h]

end Filter

/-! ## A shorter program is painted -/

namespace Declarations

variable {known other : Declarations} {clause : Clause} {clauses : List Clause}

/-- What a clause breaks without `its` only depends on the kinds of the names. -/
theorem faults_congr (h : known.kind? = other.kind?) (hits : clause.saysIts = false) :
    known.faults clause = other.faults clause := by
  cases clause with
  | declare token name word => simp only [faults, h]
  | place token first word second => simp only [faults, nameFaults, h]
  | assign token target literal =>
    obtain ⟨object, hobject⟩ := Option.isSome_iff_exists.1 (Clause.subject?_of_not_saysIts hits)
    have hnamed : target.object? = some object := hobject
    have hreferent : known.referent target = other.referent target := by
      cases object <;> simp only [referent, hnamed]
    have howner : known.ownerFaults target = other.ownerFaults target := by
      cases object <;> simp only [ownerFaults, nameFaults, hnamed, h]
    have hsize : known.sizeDimension? = other.sizeDimension? := by
      funext referent
      cases referent <;> simp only [sizeDimension?, h]
    simp only [faults, slotFaults, dimensionFaults, hreferent, howner, hsize]

theorem kind?_after_congr (h : known.kind? = other.kind?) :
    (known.after clause).kind? = (other.after clause).kind? := by
  cases clause <;> simp only [after, h]

/-- A clause that declares nothing leaves the kinds as they are. -/
theorem kind?_after_of_not_declared (known : Declarations) (h : clause.declared? = none) :
    (known.after clause).kind? = known.kind? := by
  cases clause with
  | declare token name word => cases h
  | place token first word second => rfl
  | assign token target literal => rfl

/-- Clauses without a fault have none when some are left out that declare nothing, if no other one
says `its`. -/
theorem check_filter {keep : Clause → Bool}
    (hdeclared : ∀ clause, keep clause = false → clause.declared? = none)
    (hits : ∀ clause ∈ clauses.filter keep, clause.saysIts = false)
    (hkinds : known.kind? = other.kind?) (hcheck : known.check clauses = none) :
    other.check (clauses.filter keep) = none := by
  induction clauses generalizing known other with
  | nil => rfl
  | cons clause clauses ih =>
    rw [check, Option.or_eq_none_iff] at hcheck
    obtain ⟨hfirst, hothers⟩ := hcheck
    by_cases hkeep : keep clause = true
    · rw [List.filter_cons_of_pos hkeep] at hits ⊢
      obtain ⟨hclause, hits⟩ := List.forall_mem_cons.1 hits
      rw [check, ← faults_congr hkinds hclause, hfirst, Option.none_or]
      exact ih hits (kind?_after_congr hkinds) hothers
    · rw [List.filter_cons_of_neg hkeep] at hits ⊢
      have hsame := kind?_after_of_not_declared known
        (hdeclared clause (Bool.eq_false_iff.2 hkeep))
      exact ih hits (hsame.trans hkinds) hothers

end Declarations

/-- A program that is painted is painted without clauses that declare nothing, if no other one says
`its`. -/
theorem Program.exists_paint_filter {program : Program} {scene : Scene} {keep : Clause → Bool}
    (h : program.paint = .ok scene)
    (hdeclared : ∀ clause, keep clause = false → clause.declared? = none)
    (hits : ∀ clause ∈ program.clauses, keep clause = true → clause.saysIts = false) :
    ∃ final : Painting, Painting.blank.run (program.clauses.filter keep) = .ok final ∧
      (program.filter keep).paint = .ok final.scene := by
  obtain ⟨painting, hrun, rfl⟩ := run_of_paint h
  have hinitial := Declarations.describes_initial
  have hblank := Painting.consistent_blank
  have hcheck : Declarations.initial.check program.clauses = none := by
    rcases hinitial.check_run hblank program.clauses with ⟨fault, -, herror⟩ | ⟨hcheck, -⟩
    · rw [hrun] at herror
      cases herror
    · exact hcheck
  have hits' : ∀ clause ∈ program.clauses.filter keep, clause.saysIts = false := by
    intro clause hclause
    obtain ⟨hmem, hkeep⟩ := List.mem_filter.1 hclause
    exact hits clause hmem hkeep
  have hshorter := Declarations.check_filter hdeclared hits' rfl hcheck
  rcases hinitial.check_run hblank (program.clauses.filter keep) with
    ⟨fault, hfault, -⟩ | ⟨-, final, hfinal⟩
  · rw [hshorter] at hfault
    cases hfault
  · refine ⟨final, hfinal, ?_⟩
    unfold paint
    rw [clauses_filter, hfinal]
    rfl

/-! ## Paint order without values -/

/-- What a clause does to the labels of the shapes in paint order. -/
def Clause.arrange (labels : List (Shape.Kind × String)) : Clause → List (Shape.Kind × String)
  | declare _ name word => labels ++ [(word.kind, name.text)]
  | place _ first word second =>
    Painting.arranged word.kind (labels.findIdx (·.2 = first.text))
      (labels.findIdx (·.2 = second.text)) labels
  | assign .. => labels

namespace Painting

variable {painting next : Painting} {clause : Clause} {clauses : List Clause}

/-- A name stands where it is first found. -/
theorem HasAt.findIdx_eq (h : Consistent painting) {name : String} {i : Nat}
    (hi : painting.HasAt name i) :
    (painting.shapes.map Shape.label).findIdx (·.2 = name) = i := by
  obtain ⟨-, shape, hshape, rfl⟩ := id hi
  obtain ⟨hlt, hget⟩ := List.getElem?_eq_some_iff.1 hshape
  rw [List.findIdx_map, List.findIdx_eq hlt]
  refine ⟨by simp [hget, Shape.label], fun j hj => ?_⟩
  have hne : painting.shapes[j].name ≠ shape.name := by
    intro hname
    have hother := List.getElem?_eq_getElem (Nat.lt_trans hj hlt)
    exact absurd (h.position_eq hother hshape hname) (Nat.ne_of_lt hj)
  simp [Shape.label, hne]

theorem map_arranged {α β : Type} (f : α → β) (placement : Placement) (i j : Nat)
    (elements : List α) :
    (arranged placement i j elements).map f = arranged placement i j (elements.map f) := by
  unfold arranged moved
  split
  · rw [List.getElem?_map]
    cases elements[i]? with
    | none => rfl
    | some element => simp only [Option.map_some, List.map_insertIdx, List.eraseIdx_map]
  · rfl

/-- A clause arranges the labels. -/
theorem labels_step_eq (h : Consistent painting) (hstep : painting.step clause = .ok next) :
    next.shapes.map Shape.label = clause.arrange (painting.shapes.map Shape.label) := by
  cases clause with
  | declare token name word =>
    obtain ⟨-, rfl⟩ := declare_eq_ok hstep
    exact List.map_append
  | place token first word second =>
    obtain ⟨hne, i, j, hi, hj⟩ := h.hasAt_of_place hstep
    obtain ⟨found, hfound, hshapes, -, -⟩ := exists_arranged word.kind hne hi hj
    obtain rfl := Except.ok.inj (hfound.symm.trans hstep)
    rw [Clause.arrange, hi.findIdx_eq h, hj.findIdx_eq h, hshapes, map_arranged]
  | assign token target literal =>
    obtain ⟨owner, value, slot, -, -, -, rfl⟩ := assign_eq_ok hstep
    cases owner with
    | canvas => rfl
    | shape position => exact Scene.map_modify_set (fun shape => shape.label_set _ _) _ _

/-- Clauses arrange the labels one after the other. -/
theorem labels_run_eq (h : Consistent painting) (hrun : painting.run clauses = .ok next) :
    next.shapes.map Shape.label =
      clauses.foldl Clause.arrange (painting.shapes.map Shape.label) := by
  induction clauses generalizing painting with
  | nil =>
    cases hrun
    rfl
  | cons clause clauses ih =>
    obtain ⟨middle, hstep, hothers⟩ := run_cons_eq_ok hrun
    rw [ih (h.step hstep) hothers, labels_step_eq h hstep, List.foldl_cons]

/-- Assignments can be left out of the clauses that arrange labels. -/
theorem foldl_arrange_filter (labels : List (Shape.Kind × String)) (clauses : List Clause) :
    (clauses.filter (!·.isAssignment)).foldl Clause.arrange labels =
      clauses.foldl Clause.arrange labels := by
  rw [List.foldl_filter]
  congr 1
  funext labels clause
  cases clause <;> rfl

/-! ## Values without paint order -/

section Settled

variable {other : Painting} {obeyed others : List Clause}

/-- The shapes of a settled painting are among those of another one that has shapes of the same
labels and has been given the same. -/
theorem Settled.subset (h : painting.Settled obeyed) (h' : other.Settled others)
    (hgiven : ∀ object slot, lastGiven? object slot obeyed = lastGiven? object slot others)
    (hlabels : painting.shapes.map Shape.label ⊆ other.shapes.map Shape.label) :
    painting.shapes ⊆ other.shapes := by
  intro shape hshape
  obtain ⟨twin, htwin, hlabel⟩ := List.mem_map.1 (hlabels (List.mem_map_of_mem hshape))
  obtain ⟨hkind, hname⟩ := Prod.mk.inj hlabel
  have hget : ∀ slot, shape.get slot = twin.get slot := by
    intro slot
    have hvalue := h.shapes shape hshape slot
    have hvalue' := h'.shapes twin htwin slot
    rw [hkind, hname, ← hgiven, hvalue] at hvalue'
    exact Except.ok.inj hvalue'
  rwa [Shape.ext_get hlabel.symm hget]

/-- Settled paintings with shapes of the same labels, and that have been given the same, differ in
the paint order only. -/
theorem Settled.same (h : painting.Settled obeyed) (h' : other.Settled others)
    (hconsistent : Consistent painting) (hconsistent' : Consistent other)
    (hgiven : ∀ object slot, lastGiven? object slot obeyed = lastGiven? object slot others)
    (hlabels : (painting.shapes.map Shape.label).Perm (other.shapes.map Shape.label)) :
    painting.canvas = other.canvas ∧ painting.shapes.Perm other.shapes := by
  constructor
  · refine Canvas.ext_get fun slot => ?_
    have hvalue := h.canvas slot
    rw [hgiven, h'.canvas] at hvalue
    exact (Except.ok.inj hvalue).symm
  · have hnodup := List.Nodup.of_map _ hconsistent.nodup_names
    have hnodup' := List.Nodup.of_map _ hconsistent'.nodup_names
    refine (List.perm_ext_iff_of_nodup hnodup hnodup').2 fun shape => ⟨fun hshape => ?_,
      fun hshape => ?_⟩
    · exact h.subset h' hgiven hlabels.subset hshape
    · exact h'.subset h (fun object slot => (hgiven object slot).symm) hlabels.symm.subset hshape

end Settled

end Painting

namespace Program

variable {program : Program} {scene : Scene}

/-- Without its assignments a program stacks its shapes as it does with them. -/
theorem exists_paint_without_assignments (h : program.paint = .ok scene) :
    ∃ bare, (program.filter (!·.isAssignment)).paint = .ok bare ∧
      bare.shapes.map Shape.label = scene.shapes.map Shape.label := by
  have hblank := Painting.consistent_blank
  have hdeclared : ∀ clause : Clause, (!clause.isAssignment) = false → clause.declared? = none :=
    fun clause hdropped => Clause.declared?_of_isAssignment ((Bool.not_eq_false' _).mp hdropped)
  have hits : ∀ clause ∈ program.clauses,
      (!clause.isAssignment) = true → clause.saysIts = false := by
    intro clause _ hkept
    refine Bool.eq_false_iff.2 fun hits => ?_
    rw [Clause.isAssignment_of_saysIts hits] at hkept
    cases hkept
  obtain ⟨bare, hbare, hpaint⟩ := exists_paint_filter h hdeclared hits
  obtain ⟨final, hrun, rfl⟩ := run_of_paint h
  refine ⟨bare.scene, hpaint, ?_⟩
  calc bare.shapes.map Shape.label
      = (program.clauses.filter (!·.isAssignment)).foldl Clause.arrange [] :=
        Painting.labels_run_eq hblank hbare
    _ = program.clauses.foldl Clause.arrange [] := Painting.foldl_arrange_filter _ _
    _ = final.shapes.map Shape.label := (Painting.labels_run_eq hblank hrun).symm

/-- Without its placements a program that never says `its` gives the values that it gives with
them. -/
theorem exists_paint_without_placements (h : program.paint = .ok scene)
    (hits : ∀ clause ∈ program.clauses, clause.saysIts = false) :
    ∃ unplaced, (program.filter (!·.isPlacement)).paint = .ok unplaced ∧
      unplaced.canvas = scene.canvas ∧ unplaced.shapes.Perm scene.shapes := by
  have hblank := Painting.consistent_blank
  have hplacement : ∀ clause : Clause, (!clause.isPlacement) = false → clause.isPlacement = true :=
    fun _ hdropped => (Bool.not_eq_false' _).mp hdropped
  have hdeclared : ∀ clause : Clause, (!clause.isPlacement) = false → clause.declared? = none :=
    fun clause hdropped => Clause.declared?_of_isPlacement (hplacement clause hdropped)
  obtain ⟨unplaced, hunplaced, hpaint⟩ :=
    exists_paint_filter h hdeclared fun clause hclause _ => hits clause hclause
  obtain ⟨final, hrun, rfl⟩ := run_of_paint h
  -- Every clause names its subject, so both paintings are settled behind the clauses as they are.
  have hsubject : ∀ clause ∈ program.clauses, clause.subject?.isSome :=
    fun clause hclause => Clause.subject?_of_not_saysIts (hits clause hclause)
  have hsettled := Painting.settled_blank.run hblank hsubject hrun
  have hsettled' := Painting.settled_blank.run hblank
    (fun clause hclause => hsubject clause (List.mem_of_mem_filter hclause)) hunplaced
  have hlabels := Painting.labels_run hblank hunplaced
  rw [filterMap_filter_of_none hdeclared] at hlabels
  have hgiven : ∀ object slot,
      Tableau.lastGiven? object slot (program.clauses.filter (!·.isPlacement)) =
        Tableau.lastGiven? object slot program.clauses := fun object slot =>
    lastGiven?_filter fun clause hdropped =>
      Clause.gives?_of_isPlacement (hplacement clause hdropped) object slot
  exact ⟨unplaced.scene, hpaint, hsettled'.same hsettled (hblank.run hunplaced) (hblank.run hrun)
    hgiven (hlabels.trans (Painting.labels_run hblank hrun).symm)⟩

/-- **Paint order and values do not meet**: of a program that is painted, what is left without its
assignments is painted with the same names and kinds in the same paint order; and if it never says
`its`, what is left without its placements is painted with the same canvas and the same shapes, up
to their order. -/
theorem stacking_and_values_independent (h : program.paint = .ok scene) :
    (∃ bare, (program.filter (!·.isAssignment)).paint = .ok bare ∧
      bare.shapes.map Shape.label = scene.shapes.map Shape.label) ∧
    ((∀ clause ∈ program.clauses, clause.saysIts = false) →
      ∃ unplaced, (program.filter (!·.isPlacement)).paint = .ok unplaced ∧
        unplaced.canvas = scene.canvas ∧ unplaced.shapes.Perm scene.shapes) :=
  ⟨exists_paint_without_assignments h, exists_paint_without_placements h⟩

/-- A circle gets a size, goes in front of a square, and gets another size. -/
theorem stacking_and_values_independent_of_a_move :
    let A : Token := ⟨.name, "A", 1⟩
    let B : Token := ⟨.name, "B", 1⟩
    let circle : Leaf Shape.Kind := ⟨⟨.shape .circle, "circle", 1⟩, .circle⟩
    let square : Leaf Shape.Kind := ⟨⟨.shape .square, "square", 1⟩, .square⟩
    let size : Leaf Attribute := ⟨⟨.attr .size, "size", 2⟩, .size⟩
    let front : Leaf Placement := ⟨⟨.within, "in", 2⟩, .front⟩
    let resize (text : String) : Clause :=
      .assign A (.plain A size (.shape A A)) (.number ⟨.number, text, 2⟩ ⟨.number, text, 2⟩)
    let program : Program := ⟨A, [
      ⟨A, [.declare A A circle, .declare B B square]⟩,
      ⟨A, [resize "5", .place A A front B, resize "7"]⟩]⟩
    ∃ scene bare unplaced, program.paint = .ok scene ∧
      (program.filter (!·.isAssignment)).paint = .ok bare ∧
      bare.shapes.map Shape.label = [(.square, "B"), (.circle, "A")] ∧
      (program.filter (!·.isPlacement)).paint = .ok unplaced ∧
      unplaced.names = ["A", "B"] ∧ unplaced.shapes.Perm scene.shapes := by
  intro A B circle square size front resize program
  have hpainted : program.paint.toOption.map (·.shapes.map Shape.label) =
      some [(.square, "B"), (.circle, "A")] := by decide +kernel
  have hunplaced : (program.filter (!·.isPlacement)).paint.toOption.map Scene.names =
      some ["A", "B"] := by decide +kernel
  cases hpaint : program.paint with
  | error fault => rw [hpaint] at hpainted; cases hpainted
  | ok scene =>
    rw [hpaint] at hpainted
    obtain ⟨⟨bare, hbare, hlabels⟩, hfree⟩ := stacking_and_values_independent hpaint
    obtain ⟨unplaced, hpaint', -, hperm⟩ := hfree (by decide)
    rw [hpaint'] at hunplaced
    exact ⟨scene, bare, unplaced, rfl, hbare, hlabels.trans (Option.some.inj hpainted), hpaint',
      Option.some.inj hunplaced, hperm⟩

end Program

end Tableau
