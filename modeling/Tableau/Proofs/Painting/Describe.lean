import Tableau.Proofs.Painting.Edits
import Tableau.Proofs.Painting.Numbers
import Tableau.Proofs.Program.Printing

/-!
# Programs that describe scenes

`scene.program` describes a scene: one sentence gives the canvas its values, and one sentence for
each shape, in paint order, declares the shape and gives it its values. If the scene is well formed
the program paints it (`paint_program`), and if its names are such as texts have there is a text of
the program (`printable_program`).

The sentence of a shape names the shape once and then says `its`, so the five assignments all go to
the last shape of the list. Likewise on the canvas, the first assignment apart (`run_fill`).
-/

namespace Tableau

/-! ## The program of a scene -/

/-- A token that stands in no text. -/
def Token.made (kind : Token.Kind) (text : String) : Token := ⟨kind, text, 0⟩

/-- The tuple of a value. -/
def Value.literal (value : Value) : Literal :=
  .tuple default (value.numbers.map fun n => .made .number n.toNat.repr)

/-- `its` with the words for a slot. -/
def Slot.its : Slot → Target
  | position => .implicit default ⟨default, .position⟩
  | size => .implicit default ⟨default, .size⟩
  | color => .implicit default ⟨default, .color⟩
  | borderSize => .implicitArea default ⟨default, .size⟩ ⟨default, .border⟩
  | borderColor => .implicitArea default ⟨default, .color⟩ ⟨default, .border⟩

/-- The clause that gives a slot of the last used object its value. -/
def Clause.fill (content : Slot → Value) (slot : Slot) : Clause :=
  .assign default slot.its (content slot).literal

/-- `size of canvas is … and its color is … and …` -/
def Canvas.sentence (canvas : Canvas) : Sentence where
  token := default
  clauses :=
    .assign default (.plain default ⟨default, .size⟩ (.canvas default)) canvas.size.literal ::
      [.color, .borderSize, .borderColor].map (Clause.fill canvas.get)

/-- `A is circle and its position is … and …` -/
def Shape.sentence (shape : Shape) : Sentence where
  token := default
  clauses := .declare default (.made .name shape.name) ⟨default, shape.kind⟩ ::
    [.position, .size, .color, .borderSize, .borderColor].map (Clause.fill shape.get)

/-- The program that describes a scene. -/
def Scene.program (scene : Scene) : Program :=
  ⟨default, scene.canvas.sentence :: scene.shapes.map Shape.sentence⟩

/-! ## What it paints -/

theorem Value.value_literal (value : Value) : value.literal.value = .ok value := by
  rw [literal, Literal.value_of_numbers (.tuple _ _)]
  exact congrArg (Except.map Value.mk) (Token.mapM_readNumber_repr 0 value.numbers)

/-- The owner as the last used object. -/
def Owner.antecedent : Owner → Antecedent
  | canvas => .canvas
  | shape position => .shape position

namespace Painting

section Fill

variable {painting : Painting} {owner : Owner} {content : Slot → Value}

theorem step_assign {target : Target} {slot : Slot} {value : Value} (token : Token)
    (howner : painting.owner target = .ok owner)
    (hslot : Slot.of? target.attr.kind target.area?.isSome = some slot)
    (hdimension : painting.dimension? owner slot = some value.dimension) :
    painting.step (.assign token target value.literal) = .ok (painting.write owner slot value) := by
  have hfound : painting.slot owner target.attr.kind target.area?.isSome =
      .ok (slot, value.dimension) := by
    simp only [Painting.slot, hslot, hdimension]
  rw [Painting.step, assign, howner, value.value_literal]
  simp only [bind, Except.bind, hfound, if_true]
  rfl

theorem step_fill {slot : Slot} (hused : painting.lastUsed = owner.antecedent)
    (hdimension : painting.dimension? owner slot = some (content slot).dimension) :
    painting.step (Clause.fill content slot) = .ok (painting.write owner slot (content slot)) := by
  refine step_assign default ?_ (by cases slot <;> rfl) hdimension
  have hobject : slot.its.object? = none := by
    cases slot <;> rfl
  rw [Painting.owner, hobject, hused]
  cases owner <;> rfl

theorem lastUsed_write (slot : Slot) (value : Value) :
    (painting.write owner slot value).lastUsed = owner.antecedent := by
  cases owner <;> rfl

/-- Writing changes no dimension. -/
theorem dimension?_write (slot other : Slot) (value : Value) :
    (painting.write owner slot value).dimension? owner other = painting.dimension? owner other := by
  cases owner with
  | canvas => rfl
  | shape position =>
    unfold Painting.dimension? write
    simp only [List.getElem?_modify_eq]
    cases painting.shapes[position]? with
    | none => rfl
    | some shape => exact congrArg (fun kind => some (kind.dimension other)) (shape.kind_set _ _)

/-- Clauses that fill slots of the last used object are obeyed one after the other. -/
theorem run_fill (slots : List Slot) (hused : painting.lastUsed = owner.antecedent)
    (hdimension : ∀ slot ∈ slots, painting.dimension? owner slot = some (content slot).dimension) :
    painting.run (slots.map (Clause.fill content)) = .ok
      (slots.foldl (fun painting slot => painting.write owner slot (content slot)) painting) := by
  induction slots generalizing painting with
  | nil => rfl
  | cons slot slots ih =>
    obtain ⟨hfirst, hothers⟩ := List.forall_mem_cons.1 hdimension
    rw [List.map_cons, run_cons, step_fill hused hfirst, List.foldl_cons]
    refine ih (lastUsed_write slot _) fun other hother => ?_
    rw [dimension?_write, hothers other hother]

end Fill

section Sentences

variable {painting : Painting}

theorem run_canvas {canvas : Canvas} (h : canvas.Sized) :
    painting.run canvas.sentence.clauses =
      .ok { painting with canvas := canvas, lastUsed := .canvas } := by
  have hdimension : ∀ slot ∈ [Slot.color, .borderSize, .borderColor],
      (painting.write .canvas .size canvas.size).dimension? .canvas slot =
        some (canvas.get slot).dimension := by
    rw [List.forall_mem_cons, List.forall_mem_cons, List.forall_mem_singleton]
    exact ⟨congrArg some h.color.symm, congrArg some h.borderSize.symm,
      congrArg some h.borderColor.symm⟩
  have hsize : painting.step (.assign default
      (.plain default ⟨default, .size⟩ (.canvas default)) canvas.size.literal) =
        .ok (painting.write .canvas .size canvas.size) :=
    step_assign default rfl rfl (congrArg some h.size.symm)
  rw [Canvas.sentence, run_cons, hsize]
  exact run_fill _ rfl hdimension

theorem modify_concat {α : Type} (elements : List α) (last : α) (change : α → α) :
    (elements ++ [last]).modify elements.length change = elements ++ [change last] := by
  induction elements with
  | nil => rfl
  | cons first elements ih =>
    rw [List.cons_append, List.length_cons, List.modify_succ_cons, ih, List.cons_append]

theorem run_shape (hconsistent : Consistent painting) {shape : Shape} (h : shape.Sized)
    (hnew : shape.name ∉ painting.scene.names) :
    ∃ next, painting.run shape.sentence.clauses = .ok next ∧
      next.scene = ⟨painting.canvas, painting.shapes ++ [shape]⟩ := by
  rcases declare_cases painting shape.kind (.made .name shape.name) with ⟨hold, -⟩ | ⟨-, hok⟩
  · exact absurd (hconsistent.mem_names_iff.2 hold) hnew
  · rw [Shape.sentence, run_cons, Painting.step, hok]
    let declared : Painting := { painting with
      shapes := painting.shapes ++ [.declared shape.kind shape.name]
      index := painting.index.insert shape.name painting.shapes.length
      lastUsed := .shape painting.shapes.length }
    -- From here on `its` is the new shape, the last one of the list.
    have hused : declared.lastUsed = (Owner.shape painting.shapes.length).antecedent := rfl
    refine ⟨_, run_fill _ hused fun slot _ => ?_, ?_⟩
    · rw [Shape.sized_iff.1 h slot]
      simp [dimension?, Shape.declared]
    · simp only [List.foldl_cons, List.foldl_nil, write, scene, modify_concat]
      rfl

theorem run_shapes (hconsistent : Consistent painting) (shapes : List Shape)
    (hsized : ∀ shape ∈ shapes, shape.Sized)
    (hnames : (painting.scene.names ++ shapes.map (·.name)).Nodup) :
    ∃ next, painting.run (shapes.flatMap (·.sentence.clauses)) = .ok next ∧
      next.scene = ⟨painting.canvas, painting.shapes ++ shapes⟩ := by
  -- Each shape joins those in front, so the next name is still new.
  induction shapes generalizing painting with
  | nil => exact ⟨painting, rfl, by rw [List.append_nil]; rfl⟩
  | cons shape shapes ih =>
    obtain ⟨hfirst, hothers⟩ := List.forall_mem_cons.1 hsized
    rw [List.map_cons, List.append_cons] at hnames
    have hnew : shape.name ∉ painting.scene.names := by
      intro hold
      obtain ⟨-, -, hdisjoint⟩ := List.nodup_append.1 (List.nodup_append.1 hnames).1
      exact hdisjoint _ hold _ (List.mem_singleton_self _) rfl
    obtain ⟨middle, hmiddle, hscene⟩ := run_shape hconsistent hfirst hnew
    have hnames' : (middle.scene.names ++ shapes.map (·.name)).Nodup := by
      rw [hscene]
      simpa [Scene.names, Painting.scene] using hnames
    obtain ⟨next, hnext, hresult⟩ := ih (hconsistent.run hmiddle) hothers hnames'
    obtain ⟨hcanvas, hshapes⟩ := Scene.mk.inj hscene
    refine ⟨next, ?_, ?_⟩
    · rw [List.flatMap_cons, run_append, hmiddle]
      exact hnext
    · rw [hresult, hcanvas, hshapes, List.append_assoc, List.singleton_append]

end Sentences

end Painting

namespace Scene

theorem clauses_program (scene : Scene) : scene.program.clauses =
    scene.canvas.sentence.clauses ++ scene.shapes.flatMap (·.sentence.clauses) := by
  rw [Program.clauses, program, List.flatMap_cons, List.flatMap_map]

/-- The program of a well-formed scene paints the scene. -/
theorem paint_program {scene : Scene} (h : scene.WellFormed) :
    scene.program.paint = .ok scene := by
  let start : Painting := { Painting.blank with canvas := scene.canvas, lastUsed := .canvas }
  have hcanvas : Painting.blank.run scene.canvas.sentence.clauses = .ok start :=
    Painting.run_canvas h.canvas
  have hstart : Painting.Consistent start := Painting.consistent_blank.run hcanvas
  obtain ⟨final, hfinal, hscene⟩ := Painting.run_shapes hstart scene.shapes h.shapes h.names
  rw [Program.paint, clauses_program, Painting.run_append, hcanvas]
  show (start.run _).bind _ = _
  rw [hfinal]
  exact congrArg Except.ok hscene

end Scene

/-! ## It can be printed -/

section Printable

variable {content : Slot → Value} {slot : Slot}

theorem Value.full_literal {value : Value} (h : 0 < value.dimension) : value.literal.Full := by
  intro hnil
  exact List.ne_nil_of_length_pos h (List.map_eq_nil_iff.1 hnil)

theorem Clause.full_fill (h : 0 < (content slot).dimension) : (Clause.fill content slot).Full :=
  Value.full_literal h

theorem Shape.Kind.dimension_pos (kind : Shape.Kind) (slot : Slot) : 0 < kind.dimension slot := by
  cases slot <;> cases kind <;> decide

theorem Canvas.full_sentence {canvas : Canvas} (h : canvas.Sized) : canvas.sentence.Full := by
  refine ⟨List.cons_ne_nil _ _, ?_⟩
  rw [Canvas.sentence, List.forall_mem_cons, List.forall_mem_map]
  refine ⟨Value.full_literal (by rw [h.size]; decide), ?_⟩
  rw [List.forall_mem_cons, List.forall_mem_cons, List.forall_mem_singleton]
  refine ⟨Clause.full_fill ?_, Clause.full_fill ?_, Clause.full_fill ?_⟩
  · exact Nat.lt_of_lt_of_eq (by decide) h.color.symm
  · exact Nat.lt_of_lt_of_eq (by decide) h.borderSize.symm
  · exact Nat.lt_of_lt_of_eq (by decide) h.borderColor.symm

theorem Shape.full_sentence {shape : Shape} (h : shape.Sized) : shape.sentence.Full := by
  refine ⟨List.cons_ne_nil _ _, ?_⟩
  rw [Shape.sentence, List.forall_mem_cons, List.forall_mem_map]
  refine ⟨trivial, fun slot _ => Clause.full_fill ?_⟩
  rw [sized_iff.1 h slot]
  exact shape.kind.dimension_pos slot

theorem Value.printable_literal (value : Value) :
    ∀ piece ∈ value.literal.yield, piece.Printable := by
  rw [Value.literal, Literal.yield, closedBy, List.forall_mem_cons, List.forall_mem_append,
    List.forall_mem_singleton]
  refine ⟨trivial, fun piece hpiece => ?_, trivial⟩
  rcases of_mem_separatedBy hpiece with rfl | ⟨number, hnumber, hpiece⟩
  · trivial
  · obtain ⟨n, -, rfl⟩ := List.mem_map.1 hnumber
    obtain rfl := List.mem_singleton.1 hpiece
    show Numeral.isNumeral n.toNat.repr.toList = true
    rw [Nat.toList_repr]
    exact Numeral.isNumeral_toDigits _

theorem Clause.printable_assign {token : Token} {target : Target} (value : Value)
    (h : ∀ piece ∈ target.yield, piece.Printable) :
    ∀ piece ∈ (Clause.assign token target value.literal).yield, piece.Printable := by
  rw [Clause.yield, List.forall_mem_append, List.forall_mem_cons]
  exact ⟨h, trivial, value.printable_literal⟩

theorem Clause.printable_fill (content : Slot → Value) (slot : Slot) :
    ∀ piece ∈ (Clause.fill content slot).yield, piece.Printable := by
  apply Clause.printable_assign
  cases slot <;> simp [Slot.its, Target.yield, Leaf.piece, Piece.Printable]

theorem Sentence.printable {sentence : Sentence}
    (h : ∀ clause ∈ sentence.clauses, ∀ piece ∈ clause.yield, piece.Printable) :
    ∀ piece ∈ sentence.yield, piece.Printable := by
  rw [Sentence.yield, closedBy, List.forall_mem_append, List.forall_mem_singleton]
  refine ⟨fun piece hpiece => ?_, trivial⟩
  rcases of_mem_separatedBy hpiece with rfl | ⟨clause, hclause, hpiece⟩
  · trivial
  · exact h clause hclause piece hpiece

theorem Canvas.printable_sentence (canvas : Canvas) :
    ∀ piece ∈ canvas.sentence.yield, piece.Printable := by
  apply Sentence.printable
  rw [Canvas.sentence, List.forall_mem_cons, List.forall_mem_map]
  refine ⟨Clause.printable_assign _ ?_, fun slot _ => Clause.printable_fill _ slot⟩
  simp [Target.yield, Object.yield, Leaf.piece, Piece.Printable]

theorem Shape.printable_sentence {shape : Shape} (h : Token.IsName shape.name.toList) :
    ∀ piece ∈ shape.sentence.yield, piece.Printable := by
  apply Sentence.printable
  rw [Shape.sentence, List.forall_mem_cons, List.forall_mem_map]
  refine ⟨?_, fun slot _ => Clause.printable_fill _ slot⟩
  rw [Clause.yield, List.forall_mem_cons, List.forall_mem_cons, List.forall_mem_singleton]
  exact ⟨h, trivial, trivial⟩

/-- If its names are such as texts have, the program of a scene has a text. -/
theorem Scene.printable_program {scene : Scene} (h : scene.WellFormed)
    (hnames : ∀ name ∈ scene.names, Token.IsName name.toList) : scene.program.Printable where
  full := by
    refine ⟨List.cons_ne_nil _ _, List.forall_mem_cons.2 ⟨Canvas.full_sentence h.canvas, ?_⟩⟩
    exact List.forall_mem_map.2 fun shape hshape => Shape.full_sentence (h.shapes shape hshape)
  words := by
    rw [Program.yield, Scene.program, List.flatMap_cons, List.forall_mem_append]
    refine ⟨scene.canvas.printable_sentence, fun piece hpiece => ?_⟩
    obtain ⟨sentence, hsentence, hpiece⟩ := List.mem_flatMap.1 hpiece
    obtain ⟨shape, hshape, rfl⟩ := List.mem_map.1 hsentence
    have hname : Token.IsName shape.name.toList := hnames _ (List.mem_map_of_mem hshape)
    exact Shape.printable_sentence hname piece hpiece

end Printable

end Tableau
