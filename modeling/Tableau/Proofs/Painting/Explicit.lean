import Tableau.Proofs.Painting.Index

/-!
# Programs without `its`

`its` refers to the object that the nearest clause before it names as its subject: the shape that it
declares, the first one of the two that it places, or what the attribute that it gives a value
belongs to. `program.explicit` says that object outright wherever there is one. It paints what the
program paints, or fails with the same fault (`Program.paint_explicit`), and if it paints anything
no `its` is left in it (`Program.subject_of_paint_explicit`).

A painting remembers what `its` refers to by a position, which every declaration and every placement
changes. `Painting.RefersTo` says that under the name of the subject the index has that very
position, and every clause keeps it so (`RefersTo.step`).
-/

namespace Tableau

/-! ## Saying the object outright -/

/-- The object that a clause names as its subject. -/
def Clause.subject? : Clause → Option Object
  | declare _ name _ => some (.shape name name)
  | place _ first _ _ => some (.shape first first)
  | assign _ target _ => target.object?

/-- The subject of the nearest of the clauses, from the last one, that has one. -/
def nearestSubject? (clauses : List Clause) : Option Object :=
  clauses.reverse.findSome? Clause.subject?

/-- An implicit target with the object said outright. -/
def Target.on (object : Object) : Target → Target
  | plain token attr own => .plain token attr own
  | area token attr part own => .area token attr part own
  | implicit token attr => .plain token attr object
  | implicitArea token attr part => .area token attr part object

def Clause.explicit (antecedent : Option Object) : Clause → Clause
  | declare token name shape => .declare token name shape
  | place token first placement second => .place token first placement second
  | assign token target value =>
    match antecedent with
    | some object => .assign token (target.on object) value
    | none => .assign token target value

/-- The clauses that come behind others, without `its` where those or they have a subject for it. -/
def explicitBehind (before : List Clause) : List Clause → List Clause
  | [] => []
  | clause :: clauses =>
    clause.explicit (nearestSubject? before) :: explicitBehind (before ++ [clause]) clauses

/-- The sentences that come behind clauses. A subject holds on over the end of its sentence. -/
def Sentence.explicitBehind (before : List Clause) : List Sentence → List Sentence
  | [] => []
  | sentence :: sentences =>
    ⟨sentence.token, Tableau.explicitBehind before sentence.clauses⟩ ::
      explicitBehind (before ++ sentence.clauses) sentences

/-- The program without `its`, except where there is nothing that it could refer to. -/
def Program.explicit (program : Program) : Program :=
  ⟨program.token, Sentence.explicitBehind [] program.sentences⟩

theorem nearestSubject?_concat (before : List Clause) (clause : Clause) :
    nearestSubject? (before ++ [clause]) = clause.subject?.or (nearestSubject? before) := by
  unfold nearestSubject?
  rw [List.reverse_append, List.reverse_singleton, List.singleton_append, List.findSome?_cons]
  cases clause.subject? <;> rfl

theorem explicitBehind_append (before clauses more : List Clause) :
    explicitBehind before (clauses ++ more) =
      explicitBehind before clauses ++ explicitBehind (before ++ clauses) more := by
  induction clauses generalizing before with
  | nil => rw [List.nil_append, List.append_nil, explicitBehind, List.nil_append]
  | cons clause clauses ih =>
    rw [List.cons_append, explicitBehind, explicitBehind, ih, List.append_assoc,
      List.singleton_append, List.cons_append]

theorem clauses_explicitBehind (before : List Clause) (sentences : List Sentence) :
    (Sentence.explicitBehind before sentences).flatMap (·.clauses) =
      explicitBehind before (sentences.flatMap (·.clauses)) := by
  induction sentences generalizing before with
  | nil => rfl
  | cons sentence sentences ih =>
    rw [Sentence.explicitBehind, List.flatMap_cons, List.flatMap_cons, explicitBehind_append, ih]

theorem Target.attr_on (object : Object) (target : Target) :
    (target.on object).attr = target.attr := by
  cases target <;> rfl

theorem Target.area?_on (object : Object) (target : Target) :
    (target.on object).area? = target.area? := by
  cases target <;> rfl

theorem Target.object?_on (object : Object) (target : Target) :
    (target.on object).object? = some (target.object?.getD object) := by
  cases target <;> rfl

namespace Painting

/-! ## What `its` refers to -/

/-- What `its` refers to is the object; a shape is found under its name where it was last used. -/
def RefersTo (painting : Painting) : Option Object → Prop
  | none => painting.lastUsed = .nothing
  | some (.canvas _) => painting.lastUsed = .canvas
  | some (.shape _ name) =>
    ∃ position, painting.lastUsed = .shape position ∧ painting.lookup name = .ok position

theorem refersTo_blank : blank.RefersTo (nearestSubject? []) := rfl

section Step

variable {painting next : Painting} {antecedent : Option Object}

theorem lookup_eq_ok {name : Token} {position : Nat} :
    painting.lookup name = .ok position ↔ painting.index[name.text]? = some position := by
  unfold lookup
  split
  · next found hfound => rw [hfound, Except.ok.injEq, Option.some.injEq]
  · next hnone => simp [hnone]

/-- The object that `its` refers to can be said instead. -/
theorem owner_on {object : Object} (h : painting.RefersTo (some object)) (target : Target) :
    painting.owner (target.on object) = painting.owner target := by
  unfold owner
  rw [Target.object?_on]
  cases target.object? with
  | some own => cases own <;> rfl
  | none =>
    cases object with
    | canvas token =>
      have hused : painting.lastUsed = .canvas := h
      simp only [Option.getD_none, hused]
    | shape token name =>
      obtain ⟨position, hused, hlookup⟩ := h
      simp only [Option.getD_none, hused, hlookup]
      rfl

theorem step_explicit (h : painting.RefersTo antecedent) (clause : Clause) :
    painting.step (clause.explicit antecedent) = painting.step clause := by
  cases clause with
  | declare token name shape => rfl
  | place token first placement second => rfl
  | assign token target literal =>
    cases antecedent with
    | none => rfl
    | some object =>
      show painting.assign (target.on object) literal = painting.assign target literal
      unfold assign
      rw [owner_on h, Target.attr_on, Target.area?_on]

/-- An assignment leaves the object that it goes to as the last used one. -/
theorem RefersTo.write (h : painting.RefersTo antecedent) {target : Target} {owner : Owner}
    (howner : painting.owner target = .ok owner) (slot : Slot) (value : Value) :
    (painting.write owner slot value).RefersTo (target.object?.or antecedent) := by
  unfold Painting.owner at howner
  cases hobject : target.object? with
  | some object =>
    cases object with
    | canvas token =>
      rw [hobject] at howner
      cases howner
      rfl
    | shape token name =>
      rw [hobject] at howner
      cases hlookup : painting.lookup name with
      | error fault => simp [hlookup, bind, Except.bind] at howner
      | ok position =>
        simp only [hlookup, bind, Except.bind, pure, Except.pure, Except.ok.injEq] at howner
        subst howner
        exact ⟨position, rfl, hlookup⟩
  | none =>
    rw [hobject] at howner
    rw [Option.none_or]
    match antecedent, h with
    | none, hused =>
      have hused : painting.lastUsed = .nothing := hused
      simp [hused] at howner
    | some (.canvas token), hused =>
      have hused : painting.lastUsed = .canvas := hused
      simp only [hused, Except.ok.injEq] at howner
      subst howner
      rfl
    | some (.shape token name), ⟨position, hused, hlookup⟩ =>
      simp only [hused, Except.ok.injEq] at howner
      subst howner
      exact ⟨position, rfl, hlookup⟩

/-- After a clause `its` refers to the subject of the clause, or to what it referred to before. -/
theorem RefersTo.step (h : painting.RefersTo antecedent) (hconsistent : Consistent painting)
    {clause : Clause} (hstep : painting.step clause = .ok next) :
    next.RefersTo (clause.subject?.or antecedent) := by
  cases clause with
  | declare token name shape =>
    obtain ⟨-, rfl⟩ := declare_eq_ok hstep
    exact ⟨painting.shapes.length, rfl, lookup_eq_ok.2 Std.TreeMap.getElem?_insert_self⟩
  | place token first placement second =>
    have hnext := hconsistent.step hstep
    obtain ⟨position, shape, hused, hshape, -, hname⟩ := hconsistent.lastUsed_of_place hstep
    exact ⟨position, hused, lookup_eq_ok.2 ((hnext.index _ _).2 ⟨shape, hshape, hname⟩)⟩
  | assign token target literal =>
    obtain ⟨owner, value, slot, howner, -, -, rfl⟩ := assign_eq_ok hstep
    exact h.write howner slot value

end Step

/-! ## Runs -/

section Run

variable {painting final : Painting} {before : List Clause}

theorem run_explicitBehind (hconsistent : Consistent painting)
    (h : painting.RefersTo (nearestSubject? before)) (clauses : List Clause) :
    painting.run (explicitBehind before clauses) = painting.run clauses := by
  -- Each clause joins those before it, and what `its` refers to goes along with them.
  induction clauses generalizing painting before with
  | nil => rfl
  | cons clause clauses ih =>
    rw [explicitBehind, run_cons, run_cons, step_explicit h]
    cases hstep : painting.step clause with
    | error fault => rfl
    | ok next =>
      have hnext := h.step hconsistent hstep
      rw [← nearestSubject?_concat] at hnext
      exact ih (hconsistent.step hstep) hnext

/-- A clause that is obeyed has a subject of its own or one before it. -/
theorem RefersTo.isSome_subject? {antecedent : Option Object} (h : painting.RefersTo antecedent)
    {clause : Clause} (hstep : painting.step clause = .ok final) :
    (clause.explicit antecedent).subject?.isSome := by
  cases clause with
  | declare token name shape => rfl
  | place token first placement second => rfl
  | assign token target literal =>
    cases antecedent with
    | some object =>
      show (target.on object).object?.isSome
      rw [Target.object?_on]
      rfl
    | none =>
      show target.object?.isSome
      obtain ⟨owner, -, -, howner, -⟩ := assign_eq_ok hstep
      have hused : painting.lastUsed = .nothing := h
      unfold Painting.owner at howner
      cases hobject : target.object? with
      | some object => rfl
      | none => simp [hobject, hused] at howner

theorem subject_of_run (hconsistent : Consistent painting)
    (h : painting.RefersTo (nearestSubject? before)) {clauses : List Clause}
    (hrun : painting.run clauses = .ok final) :
    ∀ clause ∈ explicitBehind before clauses, clause.subject?.isSome := by
  induction clauses generalizing painting before with
  | nil => exact List.forall_mem_nil _
  | cons clause clauses ih =>
    obtain ⟨next, hstep, hothers⟩ := run_cons_eq_ok hrun
    have hnext := h.step hconsistent hstep
    rw [← nearestSubject?_concat] at hnext
    exact List.forall_mem_cons.2
      ⟨h.isSome_subject? hstep, ih (hconsistent.step hstep) hnext hothers⟩

end Run

end Painting

namespace Program

theorem clauses_explicit (program : Program) :
    program.explicit.clauses = explicitBehind [] program.clauses :=
  clauses_explicitBehind [] program.sentences

/-- **`its` can be done without**: every program paints what it paints with the objects of its
assignments said outright, or fails with the same fault. -/
theorem paint_explicit (program : Program) : program.explicit.paint = program.paint := by
  unfold paint
  rw [clauses_explicit,
    Painting.run_explicitBehind Painting.consistent_blank Painting.refersTo_blank]

/-- Of a program that paints a scene, every assignment has its object said outright. -/
theorem subject_of_paint_explicit {program : Program} {scene : Scene}
    (h : program.paint = .ok scene) :
    ∀ clause ∈ program.explicit.clauses, clause.subject?.isSome := by
  obtain ⟨final, hrun, -⟩ := run_of_paint h
  rw [clauses_explicit]
  exact Painting.subject_of_run Painting.consistent_blank Painting.refersTo_blank hrun

end Program

end Tableau
