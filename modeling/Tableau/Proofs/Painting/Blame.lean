import Tableau.Proofs.Painting.Index
import Tableau.Proofs.Program.Relabel
import Tableau.Proofs.Program.Spans

/-!
# The token that is to blame

A painting reads the texts of `Clause.texts`, and the line of a fault is that of one of the tokens
that the clause at fault keeps. Both are said by one relation between two runs: a tree with its
tokens replaced in two ways. `SameBlame f g tokens` holds of two answers that are the same result,
or faults of the same cause, each on the line that its own replacement gives to one and the same
token of the list. Every operation of a painting keeps the two runs in this relation, as long as the
replacements agree on the texts that are read (`Painting.sameBlame_run`). With no replacement at all
it says where a single fault comes from (`Painting.exists_blamed`).
-/

namespace Tableau

variable {α β : Type} {f g : Token → Token} {tokens : List Token}

/-- The same result, or faults of the same cause that blame the same token. -/
inductive SameBlame (f g : Token → Token) (tokens : List Token) :
    Except Fault α → Except Fault α → Prop
  | ok (a : α) : SameBlame f g tokens (.ok a) (.ok a)
  | error (cause : Cause) {token : Token} : token ∈ tokens →
    SameBlame f g tokens (.error ⟨cause, (f token).line⟩) (.error ⟨cause, (g token).line⟩)

namespace SameBlame

variable {answer answer' : Except Fault α}

theorem bind {next next' : α → Except Fault β} (h : SameBlame f g tokens answer answer')
    (hnext : ∀ a, SameBlame f g tokens (next a) (next' a)) :
    SameBlame f g tokens (answer >>= next) (answer' >>= next') := by
  cases h with
  | ok a => exact hnext a
  | error cause htoken => exact .error cause htoken

theorem mono {others : List Token} (h : SameBlame f g tokens answer answer')
    (hsubset : tokens ⊆ others) : SameBlame f g others answer answer' := by
  cases h with
  | ok a => exact .ok a
  | error cause htoken => exact .error cause (hsubset htoken)

end SameBlame

/-! ## Values -/

theorem Token.sameBlame_readNumber {number : Token} (hmem : number ∈ tokens)
    (htext : (f number).text = (g number).text) :
    SameBlame f g tokens (f number).readNumber (g number).readNumber := by
  unfold Token.readNumber
  rw [htext]
  split
  · exact .ok _
  · exact .error _ hmem

theorem Token.sameBlame_readNumbers {numbers : List Token} (hmem : numbers ⊆ tokens)
    (htexts : ∀ number ∈ numbers, (f number).text = (g number).text) :
    SameBlame f g tokens ((numbers.map f).mapM readNumber) ((numbers.map g).mapM readNumber) := by
  induction numbers with
  | nil => exact .ok []
  | cons number numbers ih =>
    obtain ⟨hfirst, hothers⟩ := List.cons_subset.1 hmem
    obtain ⟨htext, htexts⟩ := List.forall_mem_cons.1 htexts
    rw [List.map_cons, List.map_cons, List.mapM_cons, List.mapM_cons]
    exact (sameBlame_readNumber hfirst htext).bind fun n =>
      (ih hothers htexts).bind fun ns => .ok _

theorem Literal.sameBlame_value {literal : Literal} (hmem : literal.numbers ⊆ tokens)
    (htexts : ∀ number ∈ literal.numbers, (f number).text = (g number).text) :
    SameBlame f g tokens (literal.map f).value (literal.map g).value := by
  cases literal with
  | number _ digits =>
    have hdigits := Token.sameBlame_readNumber (hmem (List.mem_singleton_self digits))
      (htexts digits (List.mem_singleton_self digits))
    exact hdigits.bind fun n => .ok _
  | tuple _ numbers => exact (Token.sameBlame_readNumbers hmem htexts).bind fun ns => .ok _
  | color => exact .ok _

namespace Painting

variable {painting : Painting}

/-! ## The operations of a painting -/

theorem sameBlame_lookup {name : Token} (hmem : name ∈ tokens)
    (htext : (f name).text = (g name).text) :
    SameBlame f g tokens (painting.lookup (f name)) (painting.lookup (g name)) := by
  unfold lookup
  rw [htext]
  split
  · exact .ok _
  · exact .error _ hmem

theorem sameBlame_declare (kind : Shape.Kind) {name : Token} (hmem : name ∈ tokens)
    (htext : (f name).text = (g name).text) :
    SameBlame f g tokens (painting.declare kind (f name)) (painting.declare kind (g name)) := by
  unfold declare
  rw [htext]
  split
  · exact .error _ hmem
  · exact .ok _

theorem sameBlame_place (placement : Placement) {first second : Token} (hfirst : first ∈ tokens)
    (hsecond : second ∈ tokens) (htext : (f first).text = (g first).text)
    (htext' : (f second).text = (g second).text) :
    SameBlame f g tokens (painting.place (f first) placement (f second))
      (painting.place (g first) placement (g second)) := by
  unfold place
  rw [htext, htext']
  split
  · exact .error _ hfirst
  · refine (sameBlame_lookup hfirst htext).bind fun i =>
      (sameBlame_lookup hsecond htext').bind fun j => ?_
    split <;> exact .ok _

theorem sameBlame_owner {target : Target} (hmem : target.tokens ⊆ tokens)
    (htexts : ∀ name ∈ target.names, (f name).text = (g name).text) :
    SameBlame f g tokens (painting.owner (target.map f)) (painting.owner (target.map g)) := by
  cases target with
  | plain _ _ object | area _ _ _ object =>
    cases object with
    | shape _ name =>
      have hname := hmem (Target.names_subset _ (List.mem_singleton_self name))
      have htext := htexts name (List.mem_singleton_self name)
      exact (sameBlame_lookup hname htext).bind fun i => .ok _
    | canvas => exact .ok _
  | implicit token | implicitArea token =>
    have htoken : token ∈ tokens := hmem List.mem_cons_self
    simp only [owner, Target.map, Target.object?]
    split
    · exact .ok _
    · exact .ok _
    · exact .error _ htoken

theorem sameBlame_assign {target : Target} {literal : Literal} (htarget : target.tokens ⊆ tokens)
    (hliteral : literal.tokens ⊆ tokens)
    (hnames : ∀ name ∈ target.names, (f name).text = (g name).text)
    (hnumbers : ∀ number ∈ literal.numbers, (f number).text = (g number).text) :
    SameBlame f g tokens (painting.assign (target.map f) (literal.map f))
      (painting.assign (target.map g) (literal.map g)) := by
  have hattr : ∀ f : Token → Token, (target.map f).attr = target.attr.map f := fun f => by
    cases target <;> rfl
  have harea : ∀ f : Token → Token, (target.map f).area?.isSome = target.area?.isSome := fun f => by
    cases target <;> rfl
  have htoken : ∀ f : Token → Token, (literal.map f).token = f literal.token := fun f => by
    cases literal <;> rfl
  have hattrMem : target.attr.token ∈ tokens :=
    htarget (by cases target <;> simp [Target.attr, Target.tokens])
  have hliteralMem : literal.token ∈ tokens :=
    hliteral (by cases literal <;> exact List.mem_cons_self)
  have hnumbersMem : literal.numbers ⊆ tokens :=
    List.Subset.trans literal.numbers_subset hliteral
  unfold assign
  refine (sameBlame_owner htarget hnames).bind fun owner =>
    (Literal.sameBlame_value hnumbersMem hnumbers).bind fun value => ?_
  simp only [hattr, harea, htoken, Leaf.map]
  cases painting.slot owner target.attr.kind target.area?.isSome with
  | error cause => exact .error cause hattrMem
  | ok found =>
    dsimp only
    split
    · exact .ok _
    · exact .error _ hliteralMem

/-! ## Steps and runs -/

/-- A clause with its tokens replaced in two ways does the same or blames the same token. -/
theorem sameBlame_step {clause : Clause}
    (htexts : ∀ token ∈ clause.texts, (f token).text = (g token).text) :
    SameBlame f g clause.tokens (painting.step (clause.map f)) (painting.step (clause.map g)) := by
  cases clause with
  | declare _ name word =>
    exact sameBlame_declare word.kind (by simp [Clause.tokens])
      (htexts name (List.mem_singleton_self name))
  | place _ first placement second =>
    exact sameBlame_place placement.kind (by simp [Clause.tokens]) (by simp [Clause.tokens])
      (htexts first (by simp [Clause.texts])) (htexts second (by simp [Clause.texts]))
  | assign token target literal =>
    obtain ⟨hnames, hnumbers⟩ := List.forall_mem_append.1 htexts
    exact sameBlame_assign (by simp [Clause.tokens]) (by simp [Clause.tokens]) hnames hnumbers

/-- Clauses with their tokens replaced in two ways do the same or blame the same token. -/
theorem sameBlame_run {clauses : List Clause}
    (htexts : ∀ clause ∈ clauses, ∀ token ∈ clause.texts, (f token).text = (g token).text) :
    SameBlame f g (clauses.flatMap Clause.tokens) (painting.run (clauses.map (Clause.map f)))
      (painting.run (clauses.map (Clause.map g))) := by
  induction clauses generalizing painting with
  | nil => exact .ok painting
  | cons clause clauses ih =>
    obtain ⟨hfirst, hothers⟩ := List.forall_mem_cons.1 htexts
    rw [List.map_cons, List.map_cons, run_cons, run_cons, List.flatMap_cons]
    exact ((sameBlame_step hfirst).mono (List.subset_append_left _ _)).bind fun next =>
      (ih hothers).mono (List.subset_append_right _ _)

/-- A fault at a clause is on the line of a token that the clause keeps. -/
theorem exists_blamed {clause : Clause} {fault : Fault} (h : painting.step clause = .error fault) :
    ∃ token ∈ clause.tokens, fault.line = token.line := by
  have hsame : SameBlame id id clause.tokens (painting.step (clause.map id))
      (painting.step (clause.map id)) := sameBlame_step fun _ _ => rfl
  rw [Clause.map_id, h] at hsame
  cases hsame with
  | error cause htoken => exact ⟨_, htoken, rfl⟩

/-- A run that fails, fails at the first clause that cannot be obeyed. -/
theorem exists_failing {clauses : List Clause} {fault : Fault}
    (h : painting.run clauses = .error fault) :
    ∃ position clause middle, clauses[position]? = some clause ∧
      painting.run (clauses.take position) = .ok middle ∧ middle.step clause = .error fault := by
  induction clauses generalizing painting with
  | nil => cases h
  | cons clause clauses ih =>
    rw [run_cons] at h
    cases hstep : painting.step clause with
    | error found =>
      rw [hstep] at h
      cases h
      exact ⟨0, clause, painting, rfl, rfl, hstep⟩
    | ok next =>
      rw [hstep] at h
      obtain ⟨position, failing, middle, hfailing, hrun, hfault⟩ := ih h
      refine ⟨position + 1, failing, middle, hfailing, ?_, hfault⟩
      rw [List.take_succ_cons, run_cons, hstep]
      exact hrun

end Painting

/-- A tree with its tokens replaced in two ways paints the same or blames the same token. -/
theorem Program.sameBlame_paint {program : Program}
    (htexts : ∀ clause ∈ program.clauses, ∀ token ∈ clause.texts,
      (f token).text = (g token).text) :
    SameBlame f g (program.clauses.flatMap Clause.tokens) (program.map f).paint
      (program.map g).paint := by
  unfold Program.paint
  rw [clauses_map, clauses_map]
  exact (Painting.sameBlame_run htexts).bind fun painting => .ok _

end Tableau
