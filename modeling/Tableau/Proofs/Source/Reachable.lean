import Tableau.Proofs.Painting.Describe
import Tableau.Proofs.Source.Canonical

/-!
# Which scenes can be painted

A tree paints the well-formed scenes and no other ones: what it paints is well formed, since every
clause keeps it so, and a well-formed scene is painted by the program that describes it. A text
paints those among them whose names are such as texts have (`Scene.reachable_iff`). So from a scene
that a text paints it is never far to another one: every paint order and every value of the right
dimension in any slot is painted by some text as well.
-/

namespace Tableau

/-- Some tree paints the scene. -/
def Scene.Painted (scene : Scene) : Prop := ∃ program : Program, program.paint = .ok scene

/-- Some text paints the scene. -/
def Scene.Written (scene : Scene) : Prop := ∃ source, Source.scene source = .ok scene

/-- A text that paints has a printable tree that paints the same. -/
theorem Source.exists_printable {source : String} {scene : Scene}
    (h : Source.scene source = .ok scene) :
    ∃ program : Program, program.Printable ∧ program.paint = .ok scene := by
  obtain ⟨tokens, program, htokens, hparse, hpaint⟩ := Source.stages_of_scene h
  exact ⟨program, Source.printable htokens hparse, hpaint⟩

/-- The text of a printable tree paints what the tree paints. -/
theorem Program.Printable.scene_source {program : Program} {scene : Scene}
    (h : program.Printable) (hpaint : program.paint = .ok scene) :
    Source.scene program.source = .ok scene := by
  obtain ⟨again, hparse, -, hbare⟩ := h.reparsed
  have hscene : Source.scene program.source = again.paint :=
    Source.scene_of_program ((Source.program_of_tokens h.tokens_source).trans hparse)
  rcases Source.paintAlike_of_bare hbare with ⟨same, hagain, hsame⟩ | ⟨_, _, -, hfault, -⟩
  · rw [hscene, hagain, ← hsame, hpaint]
  · rw [hpaint] at hfault
    cases hfault

/-- The names that a printable tree declares are such as texts have. -/
theorem Program.Printable.isName {program : Program} (h : program.Printable) {clause : Clause}
    (hclause : clause ∈ program.clauses) {kind : Shape.Kind} {name : String}
    (hdeclared : clause.declared? = some (kind, name)) : Token.IsName name.toList := by
  cases clause with
  | declare token word shape =>
    cases hdeclared
    exact h.clause_words hclause (.kept .name word) List.mem_cons_self
  | place | assign => cases hdeclared

namespace Scene

variable {scene : Scene}

theorem painted_iff : scene.Painted ↔ scene.WellFormed := by
  constructor
  · rintro ⟨program, hpaint⟩
    exact Program.wellFormed_of_paint hpaint
  · intro h
    exact ⟨scene.program, paint_program h⟩

theorem written_iff :
    scene.Written ↔ scene.WellFormed ∧ ∀ name ∈ scene.names, Token.IsName name.toList := by
  constructor
  · rintro ⟨source, hsource⟩
    obtain ⟨program, hprintable, hpaint⟩ := Source.exists_printable hsource
    refine ⟨Program.wellFormed_of_paint hpaint, fun name hname => ?_⟩
    obtain ⟨clause, hclause, kind, hdeclared⟩ := Program.declared_of_paint hpaint name hname
    exact hprintable.isName hclause hdeclared
  · rintro ⟨h, hnames⟩
    exact ⟨scene.program.source, (printable_program h hnames).scene_source (paint_program h)⟩

/-- What an edit makes of a scene that a text paints, a text paints as well, if only the new name is
such as texts have. -/
theorem Written.edit {next : Scene} {new : Option (Shape.Kind × String)} (h : scene.Written)
    (hedit : scene.Edit new next) (hnew : ∀ shape ∈ new, Token.IsName shape.2.toList) :
    next.Written := by
  obtain ⟨hscene, hnames⟩ := written_iff.1 h
  refine written_iff.2 ⟨hedit.wellFormed hscene, fun name hname => ?_⟩
  rcases List.mem_append.1 (hedit.names_perm.mem_iff.1 hname) with hold | hmem
  · exact hnames name hold
  · obtain ⟨shape, hshape, rfl⟩ := List.mem_map.1 hmem
    exact hnew shape (Option.mem_toList.1 hshape)

/-- **The scenes that can be painted**: a tree paints a scene exactly if its names are distinct and
every value has its dimension, and a text paints it exactly if, besides, the names are such as texts
have. So texts paint a scene that they paint in every paint order and with every value of the right
dimension in every slot. -/
theorem reachable_iff (scene : Scene) :
    (scene.Painted ↔ scene.WellFormed) ∧
    (scene.Written ↔ scene.WellFormed ∧ ∀ name ∈ scene.names, Token.IsName name.toList) ∧
    (scene.Written →
      (∀ shapes, shapes.Perm scene.shapes → Written ⟨scene.canvas, shapes⟩) ∧
      (∀ slot value, Canvas.dimension? slot = some value.dimension →
        Written ⟨scene.canvas.set value slot, scene.shapes⟩) ∧
      ∀ position shape slot value, scene.shapes[position]? = some shape →
        value.dimension = shape.kind.dimension slot →
          Written ⟨scene.canvas, scene.shapes.modify position (·.set value slot)⟩) := by
  refine ⟨painted_iff, written_iff, fun h => ⟨?_, ?_, ?_⟩⟩
  · intro shapes hshapes
    exact h.edit (.arrange hshapes) nofun
  · intro slot value hvalue
    exact h.edit (.canvas hvalue) nofun
  · intro position shape slot value hshape hvalue
    exact h.edit (.shape hshape hvalue) nofun

/-- A rectangle as wide as a number can be, and of no height. -/
theorem reachable_iff_of_largest_number :
    let scene : Scene := ⟨.blank, [.declared .rectangle "A"]⟩
    let widest : Value := ⟨[4294967295, 0]⟩
    scene.Written ∧ Written ⟨.blank, [{ Shape.declared .rectangle "A" with size := widest }]⟩ := by
  intro scene widest
  obtain ⟨-, hwritten, hnear⟩ := reachable_iff scene
  have hformed : scene.WellFormed :=
    ⟨List.pairwise_singleton _ _, ⟨rfl, rfl, rfl, rfl⟩,
      List.forall_mem_singleton.2 (Shape.sized_declared _ _)⟩
  have hmatch : Token.firstMatch Token.Kind.priority "A".toList = some (.name, "A".toList) := by
    decide +kernel
  have hscene := hwritten.2
    ⟨hformed, List.forall_mem_singleton.2 (Token.isName_of_firstMatch hmatch)⟩
  exact ⟨hscene, (hnear hscene).2.2 0 _ .size widest rfl rfl⟩

end Scene

end Tableau
