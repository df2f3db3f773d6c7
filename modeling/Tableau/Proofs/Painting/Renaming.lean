import Mathlib.Logic.Function.Basic
import Tableau.Proofs.Painting.Blame
import Tableau.Proofs.Painting.ByName

/-!
# Names matter by equality only

`program.rename f` has `f` applied to every name. If `f` is injective the renamed program paints the
scene of the program with `f` applied to the names of its shapes; or it fails at the same clause, on
the same line and with the same message, in which the name has been replaced
(`Program.paint_rename`).

The proof goes by sketches, which know shapes by their names alone. Every operation of a sketch asks
of names only whether they are equal, so it does to the renamed sketch what it does to the sketch
(`Sketch.step_rename`), and so does a whole run.
-/

namespace Tableau

/-! ## Renaming -/

def Token.rename (f : String → String) (name : Token) : Token := { name with text := f name.text }

def Object.rename (f : String → String) : Object → Object
  | shape token name => .shape token (name.rename f)
  | canvas token => .canvas token

def Target.rename (f : String → String) : Target → Target
  | plain token attr object => .plain token attr (object.rename f)
  | area token attr part object => .area token attr part (object.rename f)
  | implicit token attr => .implicit token attr
  | implicitArea token attr part => .implicitArea token attr part

def Clause.rename (f : String → String) : Clause → Clause
  | declare token name word => .declare token (name.rename f) word
  | place token first placement second => .place token (first.rename f) placement (second.rename f)
  | assign token target value => .assign token (target.rename f) value

def Sentence.rename (f : String → String) (sentence : Sentence) : Sentence :=
  ⟨sentence.token, sentence.clauses.map (Clause.rename f)⟩

/-- The program with other names. No token but those of the names is changed. -/
def Program.rename (f : String → String) (program : Program) : Program :=
  ⟨program.token, program.sentences.map (Sentence.rename f)⟩

def Shape.rename (f : String → String) (shape : Shape) : Shape :=
  { shape with name := f shape.name }

/-- The scene with other names: the same canvas, and the same shapes in the same order. -/
def Scene.rename (f : String → String) (scene : Scene) : Scene :=
  ⟨scene.canvas, scene.shapes.map (Shape.rename f)⟩

namespace Cause

/-- The name of a shape that a message quotes. -/
def name? : Cause → Option String
  | alreadyDeclared name | undeclared name | placedAtItself name => some name
  | _ => none

def rename (f : String → String) : Cause → Cause
  | alreadyDeclared name => .alreadyDeclared (f name)
  | undeclared name => .undeclared (f name)
  | placedAtItself name => .placedAtItself (f name)
  | cause => cause

/-- A message of another name is the message with that name in the place of the one that it
quotes. -/
theorem message_rename (f : String → String) (cause : Cause) :
    match cause.name? with
    | some name => ∃ before behind, cause.message = before ++ "\"" ++ name ++ "\"" ++ behind ∧
        (cause.rename f).message = before ++ "\"" ++ f name ++ "\"" ++ behind
    | none => (cause.rename f).message = cause.message := by
  have hquoted : ∀ before name behind : String,
      before ++ ("\"" ++ name ++ "\"") ++ behind = before ++ "\"" ++ name ++ "\"" ++ behind :=
    fun _ _ _ => by simp only [String.append_assoc]
  cases cause with
  | alreadyDeclared name => exact ⟨"Shape ", _, hquoted _ _ _, hquoted _ _ _⟩
  | undeclared name => exact ⟨"Shape ", _, hquoted _ _ _, hquoted _ _ _⟩
  | placedAtItself name => exact ⟨"Shape ", _, hquoted _ _ _, hquoted _ _ _⟩
  | _ => rfl

end Cause

/-- The fault with another name, on the same line. -/
def Fault.rename (f : String → String) (fault : Fault) : Fault := ⟨fault.cause.rename f, fault.line⟩

def Referent.rename (f : String → String) : Referent → Referent
  | nothing => .nothing
  | canvas => .canvas
  | shape name => .shape (f name)

def Subject.rename (f : String → String) : Subject → Subject
  | canvas => .canvas
  | shape found => .shape (found.rename f)

def Sketch.rename (f : String → String) (sketch : Sketch) : Sketch where
  canvas := sketch.canvas
  shapes := sketch.shapes.map (Shape.rename f)
  lastUsed := sketch.lastUsed.rename f

/-- An answer and its fault with other names. -/
def renamed {α β : Type} (f : String → String) (image : α → β) : Except Fault α → Except Fault β
  | .ok a => .ok (image a)
  | .error fault => .error (fault.rename f)

section Shapes

variable {f : String → String} {α β γ δ : Type}

theorem renamed_bind {image : α → β} {image' : γ → δ} {answer : Except Fault α}
    {answer' : Except Fault β} {next : α → Except Fault γ} {next' : β → Except Fault δ}
    (h : answer' = renamed f image answer)
    (hnext : ∀ a, next' (image a) = renamed f image' (next a)) :
    (answer' >>= next') = renamed f image' (answer >>= next) := by
  rw [h]
  cases answer with
  | error fault => rfl
  | ok a => exact hnext a

theorem Shape.rename_set (shape : Shape) (value : Value) (slot : Slot) :
    (shape.set value slot).rename f = (shape.rename f).set value slot := by
  cases slot <;> rfl

theorem Shape.rename_declared (kind : Shape.Kind) (name : String) :
    (declared kind name).rename f = declared kind (f name) := rfl

variable (hf : Function.Injective f) {shapes : List Shape}

include hf

/-- Whether a renamed shape has a renamed name. -/
theorem decide_name_rename (name : String) :
    (fun shape : Shape => decide ((shape.rename f).name = f name)) = (decide <| ·.name = name) :=
  funext fun _ => decide_eq_decide.2 hf.eq_iff

theorem find?_rename (name : String) : (shapes.map (Shape.rename f)).find? (·.name = f name) =
    (shapes.find? (·.name = name)).map (Shape.rename f) := by
  rw [List.find?_map]
  exact congrArg (fun test => (shapes.find? test).map _) (decide_name_rename hf name)

theorem any_rename (name : String) : (shapes.map (Shape.rename f)).any (·.name = f name) =
    shapes.any (·.name = name) := by
  rw [List.any_map]
  exact congrArg shapes.any (decide_name_rename hf name)

theorem paintedBefore_rename (first second : String) :
    paintedBefore (f first) (f second) (shapes.map (Shape.rename f)) =
      paintedBefore first second shapes := by
  have htest : (fun shape : Shape => decide (shape.name ≠ f first)) ∘ Shape.rename f =
      (decide <| ·.name ≠ first) :=
    funext fun _ => decide_eq_decide.2 (not_congr hf.eq_iff)
  unfold paintedBefore
  rw [List.dropWhile_map, htest, any_rename hf]

theorem without_rename (name : String) :
    without (f name) (shapes.map (Shape.rename f)) =
      (without name shapes).map (Shape.rename f) := by
  have htest : (fun shape : Shape => decide (shape.name ≠ f name)) ∘ Shape.rename f =
      (decide <| ·.name ≠ name) :=
    funext fun _ => decide_eq_decide.2 (not_congr hf.eq_iff)
  unfold without
  rw [List.filter_map, htest]

theorem putBeside_rename (placement : Placement) (name : String) (shape : Shape) :
    putBeside placement (f name) (shape.rename f) (shapes.map (Shape.rename f)) =
      (putBeside placement name shape shapes).map (Shape.rename f) := by
  unfold putBeside
  rw [List.flatMap_map, List.map_flatMap]
  refine congrArg (shapes.flatMap ·) (funext fun other => ?_)
  have hname : (other.rename f).name = f name ↔ other.name = name := hf.eq_iff
  by_cases h : other.name = name
  · rw [if_pos h, if_pos (hname.2 h)]
    cases placement <;> rfl
  · rw [if_neg h, if_neg (mt hname.1 h)]
    rfl

theorem violated_rename (placement : Placement) (first second : String) :
    violated placement (f first) (f second) (shapes.map (Shape.rename f)) =
      violated placement first second shapes := by
  cases placement with
  | front => exact paintedBefore_rename hf first second
  | behind => exact paintedBefore_rename hf second first

end Shapes

/-! ## The operations of a sketch -/

section Sketches

variable {f : String → String} {sketch : Sketch}

theorem Target.object?_rename (target : Target) :
    (target.rename f).object? = target.object?.map (Object.rename f) := by
  cases target <;> rfl

theorem Target.attr_rename (target : Target) : (target.rename f).attr = target.attr := by
  cases target <;> rfl

theorem Target.area?_rename (target : Target) : (target.rename f).area? = target.area? := by
  cases target <;> rfl

theorem Target.token_rename (target : Target) : (target.rename f).token = target.token := by
  cases target <;> rfl

theorem Literal.renamed_value (literal : Literal) :
    literal.value = renamed f id literal.value := by
  have hnumber : ∀ number : Token, number.readNumber = renamed f id number.readNumber := by
    intro number
    unfold Token.readNumber
    cases Numeral.read32? number.text <;> rfl
  cases literal with
  | number token digits => exact renamed_bind (hnumber digits) fun n => rfl
  | tuple token numbers =>
    have hnumbers : numbers.mapM Token.readNumber =
        renamed f id (numbers.mapM Token.readNumber) := by
      induction numbers with
      | nil => rfl
      | cons number numbers ih =>
        rw [List.mapM_cons]
        exact renamed_bind (hnumber number) fun n => renamed_bind ih fun ns => rfl
    exact renamed_bind hnumbers fun ns => rfl
  | color => rfl

theorem Subject.slot_rename (subject : Subject) (attr : Attribute) (onBorder : Bool) :
    (subject.rename f).slot attr onBorder = subject.slot attr onBorder := by
  cases subject <;> rfl

theorem Subject.rename_slot_error {subject : Subject} {attr : Attribute} {onBorder : Bool}
    {cause : Cause} (h : subject.slot attr onBorder = .error cause) : cause.rename f = cause := by
  unfold Subject.slot at h
  split at h
  · cases h
    rfl
  · split at h
    · cases h
      rfl
    · cases h

variable (hf : Function.Injective f)

include hf

namespace Sketch

theorem find_rename (name : Token) :
    (sketch.rename f).find (name.rename f) = renamed f (Shape.rename f) (sketch.find name) := by
  have hfind : (sketch.rename f).shapes.find? (·.name = (name.rename f).text) =
      (sketch.shapes.find? (·.name = name.text)).map (Shape.rename f) := find?_rename hf name.text
  unfold find
  rw [hfind]
  cases sketch.shapes.find? (·.name = name.text) <;> rfl

theorem declare_rename (kind : Shape.Kind) (name : Token) :
    (sketch.rename f).declare kind (name.rename f) =
      renamed f (Sketch.rename f) (sketch.declare kind name) := by
  have hany : (sketch.rename f).shapes.any (·.name = (name.rename f).text) =
      sketch.shapes.any (·.name = name.text) := any_rename hf name.text
  unfold declare
  rw [hany]
  by_cases h : sketch.shapes.any (·.name = name.text) = true
  · rw [if_pos h, if_pos h]
    rfl
  · rw [if_neg h, if_neg h]
    simp [renamed, rename, List.map_append, Shape.rename_declared, Referent.rename, Token.rename]

theorem place_rename (first : Token) (placement : Placement) (second : Token) :
    (sketch.rename f).place (first.rename f) placement (second.rename f) =
      renamed f (Sketch.rename f) (sketch.place first placement second) := by
  have hviolated : violated placement (first.rename f).text (second.rename f).text
      (sketch.rename f).shapes = violated placement first.text second.text sketch.shapes :=
    violated_rename hf placement first.text second.text
  have hsame : (first.rename f).text = (second.rename f).text ↔ first.text = second.text :=
    hf.eq_iff
  unfold place
  by_cases h : first.text = second.text
  · rw [if_pos h, if_pos (hsame.2 h)]
    rfl
  · rw [if_neg h, if_neg (mt hsame.1 h), hviolated]
    refine renamed_bind (find_rename hf first) fun shape =>
      renamed_bind (find_rename hf second) fun other => ?_
    by_cases hmove : violated placement first.text second.text sketch.shapes = true
    · rw [if_pos hmove, if_pos hmove]
      have hshapes : putBeside placement (second.rename f).text (shape.rename f)
          (without (first.rename f).text (sketch.rename f).shapes) =
            (putBeside placement second.text shape (without first.text sketch.shapes)).map
              (Shape.rename f) := by
        rw [← putBeside_rename hf, ← without_rename hf]
        rfl
      rw [hshapes]
      rfl
    · rw [if_neg hmove, if_neg hmove]
      rfl

theorem subject_rename (target : Target) :
    (sketch.rename f).subject (target.rename f) =
      renamed f (Subject.rename f) (sketch.subject target) := by
  unfold subject
  rw [Target.object?_rename, Target.token_rename]
  cases target.object? with
  | some object =>
    cases object with
    | canvas token => rfl
    | shape token name => exact renamed_bind (find_rename hf name) fun shape => rfl
  | none =>
    have hlast : (sketch.rename f).lastUsed = sketch.lastUsed.rename f := rfl
    dsimp only
    rw [hlast]
    cases sketch.lastUsed with
    | nothing => rfl
    | canvas => rfl
    | shape name =>
      have hfind : (sketch.rename f).shapes.find? (·.name = f name) =
          (sketch.shapes.find? (·.name = name)).map (Shape.rename f) := find?_rename hf name
      simp only [Referent.rename, hfind]
      cases sketch.shapes.find? (·.name = name) <;> rfl

theorem write_rename (subject : Subject) (slot : Slot) (value : Value) :
    (sketch.rename f).write (subject.rename f) slot value =
      (sketch.write subject slot value).rename f := by
  cases subject with
  | canvas => rfl
  | shape found =>
    have hshapes : (sketch.shapes.map (Shape.rename f)).map (fun other =>
        if other.name = (found.rename f).name then other.set value slot else other) =
          (sketch.shapes.map fun other =>
            if other.name = found.name then other.set value slot else other).map
              (Shape.rename f) := by
      rw [List.map_map, List.map_map]
      refine List.map_congr_left fun other _ => ?_
      have hname : (other.rename f).name = (found.rename f).name ↔ other.name = found.name :=
        hf.eq_iff
      by_cases h : other.name = found.name
      · rw [Function.comp_apply, Function.comp_apply, if_pos h, if_pos (hname.2 h),
          Shape.rename_set]
      · rw [Function.comp_apply, Function.comp_apply, if_neg h, if_neg (mt hname.1 h)]
    simp only [write, Subject.rename, rename, hshapes]
    rfl

theorem assign_rename (target : Target) (literal : Literal) :
    (sketch.rename f).assign (target.rename f) literal =
      renamed f (Sketch.rename f) (sketch.assign target literal) := by
  unfold assign
  refine renamed_bind (subject_rename hf target) fun subject =>
    renamed_bind literal.renamed_value fun value => ?_
  simp only [Target.attr_rename, Target.area?_rename, Subject.slot_rename, id]
  cases hslot : subject.slot target.attr.kind target.area?.isSome with
  | error cause =>
    have hcause : cause.rename f = cause := Subject.rename_slot_error hslot
    simp only [renamed, Fault.rename, hcause]
  | ok found =>
    by_cases h : value.dimension = found.2
    · simp only [if_pos h, write_rename hf]
      rfl
    · simp only [if_neg h]
      rfl

/-- A renamed clause does to a renamed sketch what the clause does to the sketch. -/
theorem step_rename (clause : Clause) : (sketch.rename f).step (clause.rename f) =
    renamed f (Sketch.rename f) (sketch.step clause) := by
  cases clause with
  | declare _ name word => exact declare_rename hf word.kind name
  | place _ first placement second => exact place_rename hf first placement.kind second
  | assign _ target literal => exact assign_rename hf target literal

theorem run_rename (clauses : List Clause) :
    (sketch.rename f).run (clauses.map (Clause.rename f)) =
      renamed f (Sketch.rename f) (sketch.run clauses) := by
  induction clauses generalizing sketch with
  | nil => rfl
  | cons clause clauses ih =>
    unfold run at ih ⊢
    rw [List.map_cons, List.foldlM_cons, List.foldlM_cons]
    exact renamed_bind (step_rename hf clause) fun next => ih

end Sketch

end Sketches

/-! ## Paintings -/

namespace Painting

variable {f : String → String} {painting painting' : Painting}

/-- The second painting is the first one with other names. -/
structure Renames (f : String → String) (painting painting' : Painting) : Prop where
  consistent : Consistent painting
  consistent' : Consistent painting'
  sketch : painting'.sketch = painting.sketch.rename f

theorem renames_blank : Renames f blank blank := ⟨consistent_blank, consistent_blank, rfl⟩

theorem exists_of_map_sketch {answer : Except Fault Painting} {sketch : Sketch}
    (h : answer.map Painting.sketch = .ok sketch) :
    ∃ painting, answer = .ok painting ∧ painting.sketch = sketch := by
  cases answer with
  | error fault => cases h
  | ok painting => exact ⟨painting, rfl, Except.ok.inj h⟩

theorem Renames.step (h : Renames f painting painting') (hf : Function.Injective f)
    (clause : Clause) : (painting'.step (clause.rename f)).map Painting.sketch =
      renamed f (Sketch.rename f) ((painting.step clause).map Painting.sketch) := by
  rw [sketch_step h.consistent', h.sketch, Sketch.step_rename hf, sketch_step h.consistent]

theorem Renames.run (h : Renames f painting painting') (hf : Function.Injective f)
    {clauses : List Clause} {next : Painting} (hrun : painting.run clauses = .ok next) :
    ∃ next', painting'.run (clauses.map (Clause.rename f)) = .ok next' ∧ Renames f next next' := by
  have hsketch : (painting'.run (clauses.map (Clause.rename f))).map Painting.sketch =
      .ok (next.sketch.rename f) := by
    rw [sketch_run h.consistent', h.sketch, Sketch.run_rename hf, ← sketch_run h.consistent, hrun]
    rfl
  obtain ⟨next', hrun', hnext⟩ := exists_of_map_sketch hsketch
  exact ⟨next', hrun', h.consistent.run hrun, h.consistent'.run hrun', hnext⟩

end Painting

namespace Program

variable {f : String → String} {program : Program}

theorem clauses_rename (f : String → String) (program : Program) :
    (program.rename f).clauses = program.clauses.map (Clause.rename f) :=
  clauses_eq_map rfl fun _ => rfl

/-- The clauses in front of a position are obeyed, and the one at the position has a fault. -/
def FailsAt (program : Program) (position : Nat) (fault : Fault) : Prop :=
  ∃ clause painting, program.clauses[position]? = some clause ∧
    Painting.blank.run (program.clauses.take position) = .ok painting ∧
    painting.step clause = .error fault

theorem exists_failsAt {fault : Fault} (h : program.paint = .error fault) :
    ∃ position, program.FailsAt position fault := by
  obtain ⟨position, clause, painting, hclause, hrun, hstep⟩ :=
    Painting.exists_failing (run_of_paint_eq_error h)
  exact ⟨position, clause, painting, hclause, hrun, hstep⟩

/-- What fails at a position ends the painting with its fault. -/
theorem FailsAt.paint {position : Nat} {fault : Fault} (h : program.FailsAt position fault) :
    program.paint = .error fault := by
  obtain ⟨clause, painting, hclause, hrun, hstep⟩ := h
  obtain ⟨hlt, rfl⟩ := List.getElem?_eq_some_iff.1 hclause
  unfold Program.paint
  rw [← List.take_append_drop position program.clauses, Painting.run_append, hrun,
    List.drop_eq_getElem_cons hlt]
  show (painting.run _).bind _ = _
  rw [Painting.run_cons, hstep]
  rfl

theorem FailsAt.rename (hf : Function.Injective f) {position : Nat} {fault : Fault}
    (h : program.FailsAt position fault) :
    (program.rename f).FailsAt position (fault.rename f) := by
  obtain ⟨clause, painting, hclause, hrun, hstep⟩ := h
  obtain ⟨painting', hrun', hrenames⟩ := Painting.renames_blank.run hf hrun
  refine ⟨clause.rename f, painting', ?_, ?_, ?_⟩
  · rw [clauses_rename, List.getElem?_map, hclause]
    rfl
  · rw [clauses_rename, ← List.map_take, hrun']
  · have hsketch := hrenames.step hf clause
    rw [hstep] at hsketch
    cases hnext : painting'.step (clause.rename f) with
    | error fault' =>
      rw [hnext] at hsketch
      exact congrArg Except.error (Except.error.inj hsketch)
    | ok next =>
      rw [hnext] at hsketch
      cases hsketch

/-- **Names matter by equality only**: with other names, kept apart where they were different, a
program paints the same scene with those names. Or it fails as it failed before: at the same clause,
on the same line, and with the same message about the other name. -/
theorem paint_rename (hf : Function.Injective f) (program : Program) :
    (∀ scene, program.paint = .ok scene → (program.rename f).paint = .ok (scene.rename f)) ∧
    ∀ fault, program.paint = .error fault →
      ∃ position, program.FailsAt position fault ∧
        (program.rename f).FailsAt position (fault.rename f) ∧
        (program.rename f).paint = .error (fault.rename f) ∧
        (fault.rename f).line = fault.line ∧
        match fault.cause.name? with
        | some name => ∃ before behind, fault.message = before ++ "\"" ++ name ++ "\"" ++ behind ∧
            (fault.rename f).message = before ++ "\"" ++ f name ++ "\"" ++ behind
        | none => (fault.rename f).message = fault.message := by
  refine ⟨fun scene hpaint => ?_, fun fault hpaint => ?_⟩
  · obtain ⟨final, hrun, rfl⟩ := run_of_paint hpaint
    obtain ⟨final', hrun', hrenames⟩ := Painting.renames_blank.run hf hrun
    have hscene : final'.sketch.scene = final.scene.rename f :=
      congrArg Sketch.scene hrenames.sketch
    unfold Program.paint
    rw [clauses_rename, hrun']
    exact congrArg Except.ok hscene
  · obtain ⟨position, hfails⟩ := exists_failsAt hpaint
    have hrenamed := hfails.rename hf
    exact ⟨position, hfails, hrenamed, hrenamed.paint, rfl, Cause.message_rename f fault.cause⟩

/-- The names `A` and `B` change places. The second clause declares `A` again, and then `B`. -/
theorem paint_rename_of_swapped :
    let swap : String → String := fun name =>
      if name = "A" then "B" else if name = "B" then "A" else name
    let A : Token := ⟨.name, "A", 1⟩
    let circle : Leaf Shape.Kind := ⟨⟨.shape .circle, "circle", 1⟩, .circle⟩
    let program : Program := ⟨A, [⟨A, [.declare A A circle, .declare A A circle]⟩]⟩
    Function.Injective swap ∧ program.paint = .error ⟨.alreadyDeclared "A", 1⟩ ∧
      (program.rename swap).paint = .error ⟨.alreadyDeclared "B", 1⟩ := by
  intro swap A circle program
  have hswap : ∀ name, swap (swap name) = name := by
    intro name
    by_cases hA : name = "A"
    · simp [swap, hA]
    · by_cases hB : name = "B"
      · simp [swap, hB]
      · simp [swap, hA, hB]
  have hpaint : program.paint = .error ⟨.alreadyDeclared "A", 1⟩ := by decide +kernel
  have hf : Function.Injective swap := Function.LeftInverse.injective hswap
  obtain ⟨-, -, -, hrenamed, -⟩ := (paint_rename hf program).2 _ hpaint
  exact ⟨hf, hpaint, hrenamed⟩

end Program

end Tableau
