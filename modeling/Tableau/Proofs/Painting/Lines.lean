import Tableau.Painting
import Tableau.Proofs.Program.Skeleton

/-!
# Lines do not matter to a painting

Of the tokens of a tree a painting reads the texts of names and numbers; all else it reads from the
constructors. Lines go into faults and nowhere else. So a tree and its `bare` tree paint the same
scene or fail for the same cause (`Program.unplaced_paint_bare`), and every cause is one of
painting (`Program.stage_of_paint`).
-/

namespace Tableau

variable {α β : Type}

/-! ## Answers without lines -/

/-- The answer without the line of its fault. -/
def unplaced (answer : Except Fault α) : Except Cause α := answer.mapError Fault.cause

theorem unplaced_bind (answer : Except Fault α) (next : α → Except Fault β) :
    unplaced (answer >>= next) = unplaced answer >>= fun a => unplaced (next a) := by
  cases answer <;> rfl

/-- Answers that agree up to lines go on to answers that agree up to lines. -/
theorem unplaced_bind_congr {answer answer' : Except Fault α} {next next' : α → Except Fault β}
    (h : unplaced answer = unplaced answer') (hnext : ∀ a, unplaced (next a) = unplaced (next' a)) :
    unplaced (answer >>= next) = unplaced (answer' >>= next') := by
  rw [unplaced_bind, unplaced_bind, h]
  exact congrArg _ (funext hnext)

section Text

variable {token token' : Token}

theorem Token.unplaced_readNumber (h : token.text = token'.text) :
    unplaced token.readNumber = unplaced token'.readNumber := by
  unfold Token.readNumber
  rw [h]
  cases Numeral.read32? token'.text <;> rfl

theorem Literal.unplaced_value (literal : Literal) :
    unplaced (literal.through .textOnly).value = unplaced literal.value := by
  cases literal with
  | number _ digits =>
    have hdigits : (View.textOnly .number digits).text = digits.text := rfl
    exact unplaced_bind_congr (Token.unplaced_readNumber hdigits) fun n => rfl
  | tuple _ numbers =>
    refine unplaced_bind_congr ?_ fun ns => rfl
    induction numbers with
    | nil => rfl
    | cons number numbers ih =>
      have hnumber : (View.textOnly .number number).text = number.text := rfl
      rw [List.map_cons, List.mapM_cons, List.mapM_cons]
      exact unplaced_bind_congr (Token.unplaced_readNumber hnumber) fun n =>
        unplaced_bind_congr ih fun ns => rfl
  | color => rfl

namespace Painting

variable {painting : Painting}

theorem unplaced_lookup (h : token.text = token'.text) :
    unplaced (painting.lookup token) = unplaced (painting.lookup token') := by
  unfold lookup
  rw [h]
  cases painting.index[token'.text]? <;> rfl

theorem unplaced_declare (kind : Shape.Kind) (h : token.text = token'.text) :
    unplaced (painting.declare kind token) = unplaced (painting.declare kind token') := by
  unfold declare
  rw [h]
  split <;> rfl

theorem unplaced_place {second second' : Token} (placement : Placement)
    (h : token.text = token'.text) (h' : second.text = second'.text) :
    unplaced (painting.place token placement second) =
      unplaced (painting.place token' placement second') := by
  unfold place
  rw [h, h']
  split
  · rfl
  · exact unplaced_bind_congr (unplaced_lookup h) fun i =>
      unplaced_bind_congr (unplaced_lookup h') fun j => rfl

theorem unplaced_owner (target : Target) :
    unplaced (painting.owner (target.through .textOnly)) = unplaced (painting.owner target) := by
  have hname : ∀ name, (View.textOnly .name name).text = name.text := fun name => rfl
  cases target with
  | plain _ _ object | area _ _ _ object =>
    cases object with
    | shape _ name => exact unplaced_bind_congr (unplaced_lookup (hname name)) fun i => rfl
    | canvas => rfl
  | implicit | implicitArea =>
    unfold owner
    simp only [Target.through, Target.object?]
    cases painting.lastUsed <;> rfl

theorem unplaced_assign (target : Target) (literal : Literal) :
    unplaced (painting.assign (target.through .textOnly) (literal.through .textOnly)) =
      unplaced (painting.assign target literal) := by
  have hattr : (target.through .textOnly).attr.kind = target.attr.kind := by
    cases target <;> rfl
  have harea : (target.through .textOnly).area?.isSome = target.area?.isSome := by
    cases target <;> rfl
  unfold assign
  refine unplaced_bind_congr (unplaced_owner target) fun owner =>
    unplaced_bind_congr literal.unplaced_value fun value => ?_
  simp only [hattr, harea]
  cases painting.slot owner target.attr.kind target.area?.isSome with
  | error cause => rfl
  | ok found =>
    obtain ⟨slot, dimension⟩ := found
    by_cases hdimension : value.dimension = dimension
    · simp only [if_pos hdimension]
    · simp only [if_neg hdimension]
      rfl

theorem unplaced_step (clause : Clause) :
    unplaced (painting.step (clause.through .textOnly)) = unplaced (painting.step clause) := by
  have hname : ∀ name, (View.textOnly .name name).text = name.text := fun name => rfl
  cases clause with
  | declare _ name shape => exact unplaced_declare shape.kind (hname name)
  | place _ first placement second =>
    exact unplaced_place placement.kind (hname first) (hname second)
  | assign _ target literal => exact unplaced_assign target literal

theorem unplaced_run (clauses : List Clause) :
    unplaced (painting.run (clauses.map (Clause.through .textOnly))) =
      unplaced (painting.run clauses) := by
  unfold run
  induction clauses generalizing painting with
  | nil => rfl
  | cons clause clauses ih =>
    rw [List.map_cons, List.foldlM_cons, List.foldlM_cons]
    exact unplaced_bind_congr (unplaced_step clause) fun next => ih

end Painting

end Text

/-- A tree paints what its bare tree paints, or fails for the same cause. -/
theorem Program.unplaced_paint_bare (program : Program) :
    unplaced program.bare.paint = unplaced program.paint := by
  have hclauses : program.bare.clauses = program.clauses.map (Clause.through .textOnly) :=
    clauses_eq_map rfl fun _ => rfl
  unfold Program.paint
  rw [hclauses]
  exact unplaced_bind_congr (Painting.unplaced_run _) fun painting => rfl

/-! ## The stage of a painting's faults -/

/-- Whether the answer can only fail in painting. -/
def FailsPainting (answer : Except Fault α) : Prop :=
  ∀ fault, answer = .error fault → fault.stage = .painting

theorem failsPainting_ok (a : α) : FailsPainting (.ok a) := fun _ h => nomatch h

theorem failsPainting_error {cause : Cause} (h : cause.stage = .painting) (line : Nat) :
    FailsPainting (.error ⟨cause, line⟩ : Except Fault α) := by
  rintro fault ⟨⟩
  exact h

theorem FailsPainting.bind {answer : Except Fault α} {next : α → Except Fault β}
    (h : FailsPainting answer) (hnext : ∀ a, FailsPainting (next a)) :
    FailsPainting (answer >>= next) := by
  cases answer with
  | error fault =>
    rintro fault' ⟨⟩
    exact h fault rfl
  | ok a => exact hnext a

theorem Token.failsPainting_readNumber (number : Token) : FailsPainting number.readNumber := by
  unfold Token.readNumber
  split
  · exact failsPainting_ok _
  · exact failsPainting_error rfl _

theorem Literal.failsPainting_value (literal : Literal) : FailsPainting literal.value := by
  cases literal with
  | number _ digits => exact digits.failsPainting_readNumber.bind fun n => failsPainting_ok _
  | tuple _ numbers =>
    refine FailsPainting.bind ?_ fun ns => failsPainting_ok _
    induction numbers with
    | nil => exact failsPainting_ok _
    | cons number numbers ih =>
      rw [List.mapM_cons]
      exact number.failsPainting_readNumber.bind fun n => ih.bind fun ns => failsPainting_ok _
  | color => exact failsPainting_ok _

namespace Painting

variable {painting : Painting}

theorem failsPainting_lookup (name : Token) : FailsPainting (painting.lookup name) := by
  unfold lookup
  split
  · exact failsPainting_ok _
  · exact failsPainting_error rfl _

theorem failsPainting_owner (target : Target) : FailsPainting (painting.owner target) := by
  unfold owner
  split
  · exact failsPainting_ok _
  · exact (failsPainting_lookup _).bind fun i => failsPainting_ok _
  · split
    · exact failsPainting_ok _
    · exact failsPainting_ok _
    · exact failsPainting_error rfl _

theorem stage_of_slot {owner : Owner} {attr : Attribute} {onBorder : Bool} {cause : Cause}
    (h : painting.slot owner attr onBorder = .error cause) : cause.stage = .painting := by
  unfold Painting.slot at h
  split at h
  · obtain rfl := Except.error.inj h
    rfl
  · split at h
    · obtain rfl := Except.error.inj h
      rfl
    · cases h

theorem failsPainting_step (clause : Clause) : FailsPainting (painting.step clause) := by
  cases clause with
  | declare _ name shape =>
    simp only [step, declare]
    split
    · exact failsPainting_error rfl _
    · exact failsPainting_ok _
  | place _ first placement second =>
    simp only [step, place]
    split
    · exact failsPainting_error rfl _
    · refine (failsPainting_lookup first).bind fun i =>
        (failsPainting_lookup second).bind fun j => ?_
      split <;> exact failsPainting_ok _
  | assign _ target literal =>
    refine (failsPainting_owner target).bind fun owner =>
      literal.failsPainting_value.bind fun value => ?_
    dsimp only
    split
    · next cause hslot => exact failsPainting_error (stage_of_slot hslot) _
    · split
      · exact failsPainting_ok _
      · exact failsPainting_error rfl _

end Painting

/-- A program that cannot be painted fails in painting. -/
theorem Program.stage_of_paint {program : Program} {fault : Fault}
    (h : program.paint = .error fault) : fault.stage = .painting := by
  have hrun : ∀ (clauses : List Clause) (painting : Painting),
      FailsPainting (painting.run clauses) := by
    intro clauses
    induction clauses with
    | nil => exact fun painting => failsPainting_ok painting
    | cons clause clauses ih =>
      intro painting
      unfold Painting.run
      rw [List.foldlM_cons]
      exact (Painting.failsPainting_step clause).bind ih
  have hpaint : FailsPainting program.paint :=
    (hrun program.clauses .blank).bind fun painting => failsPainting_ok _
  exact hpaint fault h

end Tableau
