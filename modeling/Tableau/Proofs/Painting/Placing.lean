import Tableau.Proofs.Painting.Describe
import Tableau.Proofs.Painting.Explicit

/-!
# What a placement does

A sentence such as `X is in front of Y` leaves the shapes as they are if `X` already stands on that
side of `Y`. Otherwise it takes `X` out of the list and puts it in again right next to `Y`, and the
order of the other shapes stays what it was. `Painting.Placed` says this of two paintings and of the
positions that the two names have in them, and every placement that is obeyed does it
(`Painting.place_exact`). So the same placement, obeyed again, changes nothing, and `in front of` on
a list of shapes is `behind` on the reversed list.

The two directions share one move, out of position `i` and in at position `j`, although what is
taken out shifts `j` in one of them. `Painting.arranged` is that move where it is needed; its lemmas
are about lists of any elements.
-/

namespace Tableau

namespace Placement

/-- Whether what stands at position `i` is on the right side of what stands at position `j`. -/
def Holds : Placement → Nat → Nat → Prop
  | front, i, j => j < i
  | behind, i, j => i < j

/-- Position `i` is next to position `j`, on the right side of it. -/
def Touches : Placement → Nat → Nat → Prop
  | front, i, j => i = j + 1
  | behind, i, j => i + 1 = j

def opposite : Placement → Placement
  | front => behind
  | behind => front

theorem misplaced_iff {placement : Placement} {i j : Nat} :
    Painting.misplaced placement i j = true ↔ placement.Holds j i := by
  cases placement <;> exact decide_eq_true_iff

/-- Of two positions exactly one order holds. -/
theorem not_holds_iff {placement : Placement} {i j : Nat} (hne : i ≠ j) :
    ¬placement.Holds i j ↔ placement.Holds j i := by
  cases placement
  all_goals
    simp only [Holds]
    omega

end Placement

namespace Painting

/-! ## Lists of any elements -/

section Arranged

variable {α : Type} {elements : List α} {placement : Placement} {i j : Nat}

/-- The list with the element at position `i` on the right side of the one at position `j`. -/
def arranged (placement : Placement) (i j : Nat) (elements : List α) : List α :=
  if misplaced placement i j then moved i j elements else elements

/-- Where the element at position `i` is then. -/
def landing (placement : Placement) (i j : Nat) : Nat :=
  if misplaced placement i j then j else i

/-- Where the element at position `j` is then: one place off if the other one has jumped over it. -/
def shifted (placement : Placement) (i j : Nat) : Nat :=
  if misplaced placement i j then
    match placement with
    | .front => j - 1
    | .behind => j + 1
  else j

theorem holds_landing (hne : i ≠ j) :
    placement.Holds (landing placement i j) (shifted placement i j) := by
  unfold landing shifted
  cases placement
  all_goals
    simp only [misplaced, Placement.Holds, decide_eq_true_eq]
    split
  all_goals omega

theorem touches_landing (hne : i ≠ j) (h : ¬placement.Holds i j) :
    placement.Touches (landing placement i j) (shifted placement i j) := by
  rw [Placement.not_holds_iff hne] at h
  unfold landing shifted
  rw [if_pos (Placement.misplaced_iff.2 h), if_pos (Placement.misplaced_iff.2 h)]
  cases placement with
  | front =>
    show j = j - 1 + 1
    have hlt : i < j := h
    omega
  | behind => rfl

theorem arranged_of_holds (hne : i ≠ j) (h : placement.Holds i j) :
    arranged placement i j elements = elements := by
  refine if_neg fun hmisplaced => ?_
  exact (Placement.not_holds_iff hne.symm).2 h (Placement.misplaced_iff.1 hmisplaced)

theorem getElem?_landing (placement : Placement) (hi : i < elements.length)
    (hj : j < elements.length) :
    (arranged placement i j elements)[landing placement i j]? = elements[i]? := by
  unfold arranged landing
  by_cases h : misplaced placement i j = true
  · rw [if_pos h, if_pos h, getElem?_moved hi hj, origin_self]
  · rw [if_neg h, if_neg h]

theorem getElem?_shifted (placement : Placement) (hi : i < elements.length)
    (hj : j < elements.length) :
    (arranged placement i j elements)[shifted placement i j]? = elements[j]? := by
  unfold arranged shifted
  by_cases h : misplaced placement i j = true
  · rw [if_pos h, if_pos h, getElem?_moved hi hj]
    rw [Placement.misplaced_iff] at h
    congr 1
    unfold origin
    cases placement
    all_goals
      simp only [Placement.Holds] at h ⊢
      repeat' split
    all_goals omega
  · rw [if_neg h, if_neg h]

/-- The other elements stay in their order. -/
theorem eraseIdx_landing (placement : Placement) (j : Nat) (hi : i < elements.length) :
    (arranged placement i j elements).eraseIdx (landing placement i j) = elements.eraseIdx i := by
  unfold arranged landing
  by_cases h : misplaced placement i j = true
  · rw [if_pos h, if_pos h, moved, List.getElem?_eq_getElem hi]
    exact List.eraseIdx_insertIdx_self _
  · rw [if_neg h, if_neg h]

/-- A move seen from the other end of the list. -/
theorem moved_reverse (hi : i < elements.length) (hj : j < elements.length) :
    (moved i j elements).reverse =
      moved (elements.length - 1 - i) (elements.length - 1 - j) elements.reverse := by
  have hlength := length_moved hi hj
  refine List.ext_getElem? fun k => ?_
  have hi' : elements.length - 1 - i < elements.reverse.length := by
    rw [List.length_reverse]
    omega
  have hj' : elements.length - 1 - j < elements.reverse.length := by
    rw [List.length_reverse]
    omega
  by_cases hk : k < elements.length
  · rw [getElem?_moved hi' hj', List.getElem?_reverse (by omega), getElem?_moved hi hj, hlength]
    have horigin : origin (elements.length - 1 - i) (elements.length - 1 - j) k <
        elements.length := by
      unfold origin
      repeat' split
      all_goals omega
    rw [List.getElem?_reverse horigin]
    congr 1
    unfold origin
    repeat' split
    all_goals omega
  · rw [List.getElem?_eq_none (by rw [List.length_reverse]; omega),
      List.getElem?_eq_none (by rw [length_moved hi' hj', List.length_reverse]; omega)]

theorem arranged_reverse (hi : i < elements.length) (hj : j < elements.length) :
    (arranged placement i j elements).reverse =
      arranged placement.opposite (elements.length - 1 - i) (elements.length - 1 - j)
        elements.reverse := by
  have hmisplaced : misplaced placement.opposite (elements.length - 1 - i)
      (elements.length - 1 - j) = misplaced placement i j := by
    cases placement <;> simp only [misplaced, Placement.opposite, decide_eq_decide] <;> omega
  unfold arranged
  rw [hmisplaced]
  by_cases h : misplaced placement i j = true
  · rw [if_pos h, if_pos h, moved_reverse hi hj]
  · rw [if_neg h, if_neg h]

end Arranged

/-! ## Paintings -/

/-- Some clauses lead to the painting. -/
def Reached (painting : Painting) : Prop := ∃ clauses, blank.run clauses = .ok painting

/-- The index has the name at a position, and a shape of that name stands there. -/
def HasAt (painting : Painting) (name : String) (position : Nat) : Prop :=
  painting.index[name]? = some position ∧
    ∃ shape, painting.shapes[position]? = some shape ∧ shape.name = name

/-- The shape at position `i` has been placed relative to the one at position `j`; the two now stand
at the positions `i'` and `j'`. -/
structure Placed (placement : Placement) (painting next : Painting) (i j i' j' : Nat) : Prop where
  holds : placement.Holds i' j'
  /-- A shape that was on the right side is still where it was, and so are all others. -/
  unchanged : placement.Holds i j → next.shapes = painting.shapes
  touches : ¬placement.Holds i j → placement.Touches i' j'
  shape : next.shapes[i']? = painting.shapes[i]?
  others : next.shapes.eraseIdx i' = painting.shapes.eraseIdx i
  canvas : next.canvas = painting.canvas

section Place

variable {painting : Painting} {first second : Token} {placement : Placement} {i j : Nat}

theorem Reached.consistent (h : painting.Reached) : Consistent painting := by
  obtain ⟨clauses, hrun⟩ := h
  exact consistent_blank.run hrun

theorem Consistent.hasAt_iff (h : Consistent painting) {name : String} {position : Nat} :
    painting.HasAt name position ↔
      ∃ shape, painting.shapes[position]? = some shape ∧ shape.name = name :=
  ⟨fun hat => hat.2, fun hshape => ⟨(h.index name position).2 hshape, hshape⟩⟩

theorem Consistent.exists_hasAt (h : Consistent painting) {name : String}
    (hname : name ∈ painting.scene.names) : ∃ position, painting.HasAt name position := by
  obtain ⟨shape, hmem, rfl⟩ := List.mem_map.1 hname
  obtain ⟨position, hposition⟩ := List.mem_iff_getElem?.1 hmem
  exact ⟨position, h.hasAt_iff.2 ⟨shape, hposition, rfl⟩⟩

theorem HasAt.lt {name : String} (h : painting.HasAt name i) : i < painting.shapes.length := by
  obtain ⟨-, shape, hshape, -⟩ := h
  exact (List.getElem?_eq_some_iff.1 hshape).1

theorem HasAt.lookup_eq (h : painting.HasAt first.text i) : painting.lookup first = .ok i :=
  lookup_eq_ok.2 h.1

/-- Other names stand at other positions. -/
theorem HasAt.ne {name other : String} (h : painting.HasAt name i) (h' : painting.HasAt other j)
    (hne : name ≠ other) : i ≠ j := by
  rintro rfl
  obtain ⟨-, shape, hshape, hname⟩ := h
  obtain ⟨-, shape', hshape', hname'⟩ := h'
  obtain rfl := Option.some.inj (hshape.symm.trans hshape')
  exact hne (hname.symm.trans hname')

/-- A placement of two names that stand somewhere is obeyed. -/
theorem place_eq_ok (hne : first.text ≠ second.text) (hi : painting.HasAt first.text i)
    (hj : painting.HasAt second.text j) :
    painting.place first placement second = .ok
      (if misplaced placement i j then { painting.move i j with lastUsed := .shape j }
        else { painting with lastUsed := .shape i }) := by
  unfold place
  rw [if_neg hne, hi.lookup_eq, hj.lookup_eq]
  simp only [bind, Except.bind, pure, Except.pure]
  split <;> rfl

/-- What is as the placement says stays so; from then on `its` is the first of the two shapes. -/
theorem place_of_holds (hne : first.text ≠ second.text) (hi : painting.HasAt first.text i)
    (hj : painting.HasAt second.text j) (h : placement.Holds i j) :
    painting.place first placement second = .ok { painting with lastUsed := .shape i } := by
  rw [place_eq_ok hne hi hj, if_neg]
  intro hmisplaced
  have hij : j ≠ i := (hi.ne hj hne).symm
  exact (Placement.not_holds_iff hij).2 h (Placement.misplaced_iff.1 hmisplaced)

/-- A placement arranges the shapes, and `its` is the first of the two from then on. -/
theorem exists_arranged (placement : Placement) (hne : first.text ≠ second.text)
    (hi : painting.HasAt first.text i) (hj : painting.HasAt second.text j) :
    ∃ next, painting.place first placement second = .ok next ∧
      next.shapes = arranged placement i j painting.shapes ∧
      next.lastUsed = .shape (landing placement i j) ∧ next.canvas = painting.canvas := by
  refine ⟨_, place_eq_ok hne hi hj, ?_⟩
  unfold arranged landing
  by_cases h : misplaced placement i j = true
  · rw [if_pos h, if_pos h, if_pos h]
    exact ⟨rfl, rfl, rfl⟩
  · rw [if_neg h, if_neg h, if_neg h]
    exact ⟨rfl, rfl, rfl⟩

/-- A placement puts the first name on the right side of the second one. -/
theorem exists_placed (placement : Placement) (h : Consistent painting)
    (hne : first.text ≠ second.text) (hi : painting.HasAt first.text i)
    (hj : painting.HasAt second.text j) :
    ∃ next i' j', painting.place first placement second = .ok next ∧
      next.HasAt first.text i' ∧ next.HasAt second.text j' ∧ next.lastUsed = .shape i' ∧
      Placed placement painting next i j i' j' := by
  obtain ⟨next, hplace, hshapes, hused, hcanvas⟩ := exists_arranged placement hne hi hj
  have hij : i ≠ j := hi.ne hj hne
  have hstep : painting.step (.place default first ⟨default, placement⟩ second) = .ok next := hplace
  have hnext : Consistent next := h.step hstep
  have hfirst := getElem?_landing placement hi.lt hj.lt
  have hsecond := getElem?_shifted placement hi.lt hj.lt
  have hothers := eraseIdx_landing placement j hi.lt
  rw [← hshapes] at hfirst hsecond hothers
  refine ⟨next, landing placement i j, shifted placement i j, hplace, ?_, ?_, hused, ?_⟩
  · rw [hnext.hasAt_iff, hfirst]
    exact hi.2
  · rw [hnext.hasAt_iff, hsecond]
    exact hj.2
  · exact {
      holds := holds_landing hij
      unchanged := fun hholds => hshapes.trans (arranged_of_holds hij hholds)
      touches := touches_landing hij
      shape := hfirst
      others := hothers
      canvas := hcanvas }

/-- The same placement again and again does what it does once. -/
theorem run_replicate_place {next : Painting} {token : Token} {word : Leaf Placement}
    (hstep : painting.step (.place token first word second) = .ok next)
    (hagain : next.step (.place token first word second) = .ok next) (n : Nat) :
    painting.run (List.replicate (n + 1) (.place token first word second)) = .ok next := by
  have hstay : ∀ n, next.run (List.replicate n (.place token first word second)) = .ok next := by
    intro n
    induction n with
    | zero => rfl
    | succ n ih =>
      rw [List.replicate_succ, run_cons, hagain]
      exact ih
  rw [List.replicate_succ, run_cons, hstep]
  exact hstay n

/-! ## From the other end of the list -/

/-- The shapes of every painting that is reached can be reached in the opposite order. -/
theorem Reached.exists_reversed (h : painting.Reached) :
    ∃ mirrored, Reached mirrored ∧ mirrored.shapes = painting.shapes.reverse := by
  obtain ⟨clauses, hrun⟩ := h
  have hpaint : Program.paint ⟨default, [⟨default, clauses⟩]⟩ = .ok painting.scene := by
    unfold Program.paint Program.clauses
    rw [List.flatMap_singleton, hrun]
    rfl
  obtain ⟨hnames, hcanvas, hshapes⟩ := Program.wellFormed_of_paint hpaint
  have hreversed : Scene.WellFormed ⟨painting.canvas, painting.shapes.reverse⟩ := by
    refine ⟨?_, hcanvas, fun shape hmem => hshapes shape (List.mem_reverse.1 hmem)⟩
    rw [Scene.names, List.map_reverse]
    exact (List.reverse_perm _).nodup_iff.2 hnames
  obtain ⟨mirrored, hmirrored, hscene⟩ := Program.run_of_paint (Scene.paint_program hreversed)
  exact ⟨mirrored, ⟨_, hmirrored⟩, congrArg Scene.shapes hscene⟩

/-- Where the shapes stand in the opposite order, so do the names. -/
theorem HasAt.reversed {mirrored : Painting} (hmirrored : Consistent mirrored)
    (hshapes : mirrored.shapes = painting.shapes.reverse) {name : String}
    (h : painting.HasAt name i) : mirrored.HasAt name (painting.shapes.length - 1 - i) := by
  have hlt := h.lt
  rw [hmirrored.hasAt_iff, hshapes, List.getElem?_reverse (by omega)]
  have hi : painting.shapes.length - 1 - (painting.shapes.length - 1 - i) = i := by omega
  rw [hi]
  exact h.2

/-- On the reversed shapes the opposite placement leads to the reversed shapes. -/
theorem exists_place_reversed {mirrored next : Painting} (hmirrored : Consistent mirrored)
    (hshapes : mirrored.shapes = painting.shapes.reverse) (hne : first.text ≠ second.text)
    (hi : painting.HasAt first.text i) (hj : painting.HasAt second.text j)
    (hplace : painting.place first placement second = .ok next) :
    ∃ next', mirrored.place first placement.opposite second = .ok next' ∧
      next'.shapes = next.shapes.reverse := by
  obtain ⟨same, hsame, harranged, -, -⟩ := exists_arranged placement hne hi hj
  obtain rfl := Except.ok.inj (hplace.symm.trans hsame)
  obtain ⟨next', hplace', harranged', -, -⟩ :=
    exists_arranged placement.opposite hne (hi.reversed hmirrored hshapes)
      (hj.reversed hmirrored hshapes)
  refine ⟨next', hplace', ?_⟩
  rw [harranged', harranged, hshapes, arranged_reverse hi.lt hj.lt]

end Place

/-- **What a placement does**, in every painting that clauses lead to and for every two names of its
shapes. Afterwards the first name stands on the right side of the second one. If it stood there
before, the shapes are the same; otherwise it now stands right next to the second one, and all other
shapes are in the order in which they were. Any number of repetitions changes nothing more. On the
reversed list of shapes, which clauses lead to as well, the opposite placement leads to the reversed
list. -/
theorem place_exact {painting : Painting} (h : painting.Reached) {first second : Token}
    (hne : first.text ≠ second.text) (hfirst : first.text ∈ painting.scene.names)
    (hsecond : second.text ∈ painting.scene.names) (token : Token) (word : Leaf Placement) :
    ∃ next i j i' j', painting.step (.place token first word second) = .ok next ∧
      (painting.HasAt first.text i ∧ painting.HasAt second.text j ∧
        next.HasAt first.text i' ∧ next.HasAt second.text j' ∧
        Placed word.kind painting next i j i' j') ∧
      (∀ n, painting.run (List.replicate (n + 1) (.place token first word second)) = .ok next) ∧
      (∃ mirrored, Reached mirrored ∧ mirrored.shapes = painting.shapes.reverse) ∧
      ∀ mirrored, Reached mirrored → mirrored.shapes = painting.shapes.reverse →
        ∃ next', mirrored.step (.place token first ⟨word.token, word.kind.opposite⟩ second) =
          .ok next' ∧ next'.shapes = next.shapes.reverse := by
  obtain ⟨i, hi⟩ := h.consistent.exists_hasAt hfirst
  obtain ⟨j, hj⟩ := h.consistent.exists_hasAt hsecond
  obtain ⟨next, i', j', hplace, hi', hj', hused, hplaced⟩ :=
    exists_placed word.kind h.consistent hne hi hj
  have hagain : next.place first word.kind second = .ok next := by
    rw [place_of_holds hne hi' hj' hplaced.holds, ← hused]
  refine ⟨next, i, j, i', j', hplace, ⟨hi, hj, hi', hj', hplaced⟩, ?_, h.exists_reversed, ?_⟩
  · intro n
    exact run_replicate_place hplace hagain n
  · intro mirrored hmirrored hshapes
    exact exists_place_reversed hmirrored.consistent hshapes hne hi hj hplace

/-- The first of three shapes goes in front of the last one. -/
theorem place_exact_of_far_move :
    let name : String → Token := fun text => ⟨.name, text, 1⟩
    let circle : Leaf Shape.Kind := ⟨⟨.shape .circle, "circle", 1⟩, .circle⟩
    let declare : String → Clause := fun text => .declare (name text) (name text) circle
    let front : Leaf Placement := ⟨⟨.within, "in", 2⟩, .front⟩
    ∃ painting next i j i' j', blank.run [declare "A", declare "B", declare "C"] = .ok painting ∧
      painting.scene.names = ["A", "B", "C"] ∧
      painting.step (.place (name "A") (name "A") front (name "C")) = .ok next ∧
      Placed .front painting next i j i' j' := by
  intro name circle declare front
  have hnames : (blank.run [declare "A", declare "B", declare "C"]).toOption.map
      (·.scene.names) = some ["A", "B", "C"] := by decide +kernel
  cases hrun : blank.run [declare "A", declare "B", declare "C"] with
  | error fault => rw [hrun] at hnames; cases hnames
  | ok painting =>
    rw [hrun] at hnames
    have hnames : painting.scene.names = ["A", "B", "C"] := Option.some.inj hnames
    have hne : (name "A").text ≠ (name "C").text := by decide
    obtain ⟨next, i, j, i', j', hstep, ⟨-, -, -, -, hplaced⟩, -⟩ :=
      place_exact ⟨_, hrun⟩ hne (by rw [hnames]; decide) (by rw [hnames]; decide) (name "A") front
    exact ⟨painting, next, i, j, i', j', rfl, hnames, hstep, hplaced⟩

end Painting

end Tableau
