import Tableau.Proofs.Program.Continue

/-!
# Where the parser is stuck

A reader that fails answers with the tokens that are left. They are the rear part of the tokens that
it was given, and no reader but the outermost ever takes an end marker; so of a marked list there is
always a token left (`Leaves`). `Program.stuckAt?` is the position of the first such token, where
the marker behind the last token counts as a position too. A token list has a tree or it is stuck,
and then the fault is the one at the token where it is stuck (`Program.parse_cases`).
-/

namespace Tableau

/-- Some token of the list is an end marker. -/
def Marked (tokens : List Token) : Prop := ∃ token ∈ tokens, token.kind = .endOfInput

theorem Marked.exists_cons {tokens : List Token} (h : Marked tokens) :
    ∃ first others, tokens = first :: others := by
  obtain ⟨token, htoken, -⟩ := h
  exact List.exists_cons_of_ne_nil (List.ne_nil_of_mem htoken)

namespace Parser

variable {α β : Type} {tokens : List Token}

/-! ## What a reader leaves -/

/-- The tokens that are left, behind a node or at a fault. -/
def leftOf : Except (List Token) (α × List Token) → List Token
  | .ok found => found.2
  | .error left => left

/-- Part of the tokens from somewhere on, with an end marker in it. -/
def MarkedRear (rear tokens : List Token) : Prop := rear <:+ tokens ∧ Marked rear

theorem MarkedRear.trans {rear middle : List Token} (h : MarkedRear rear middle)
    (h' : MarkedRear middle tokens) : MarkedRear rear tokens :=
  ⟨h.1.trans h'.1, h.2⟩

theorem MarkedRear.all (h : Marked tokens) : MarkedRear tokens tokens := ⟨List.suffix_rfl, h⟩

/-- Behind a token that is no end marker the marker is still to come. -/
theorem MarkedRear.tail {first : Token} {others : List Token} (h : Marked (first :: others))
    (hfirst : first.kind ≠ .endOfInput) : MarkedRear others (first :: others) := by
  obtain ⟨token, htoken, hkind⟩ := h
  refine ⟨List.suffix_cons _ _, token, (List.mem_cons.1 htoken).resolve_left ?_, hkind⟩
  rintro rfl
  exact hfirst hkind

/-- What a reader leaves of a marked list is a rear part with the marker still in it. -/
def Leaves (p : Parser α) : Prop :=
  ∀ tokens, Marked tokens → MarkedRear (leftOf (p tokens)) tokens

theorem Leaves.bind {p : Parser α} {q : α → Parser β} (hp : Leaves p) (hq : ∀ a, Leaves (q a)) :
    Leaves (p >>= q) := by
  intro tokens hmarked
  show MarkedRear (leftOf ((p tokens).bind fun found => q found.1 found.2)) tokens
  have hfirst := hp tokens hmarked
  cases hread : p tokens with
  | error left =>
    rw [hread] at hfirst
    exact hfirst
  | ok found =>
    rw [hread] at hfirst
    exact (hq found.1 found.2 hfirst.2).trans hfirst

theorem leaves_pure (a : α) : Leaves (pure a : Parser α) := fun _ hmarked => .all hmarked

theorem leaves_peek : Leaves peek := by
  intro tokens hmarked
  obtain ⟨first, others, rfl⟩ := hmarked.exists_cons
  exact .all hmarked

theorem leaves_token {kind : Token.Kind} (hkind : kind ≠ .endOfInput) : Leaves (token kind) := by
  intro tokens hmarked
  obtain ⟨first, others, rfl⟩ := hmarked.exists_cons
  simp only [token]
  split
  · next hfirst => exact .tail hmarked fun h => hkind (hfirst.symm.trans h)
  · exact .all hmarked

theorem leaves_leaf {select : Token.Kind → Option α} (hselect : select .endOfInput = none) :
    Leaves (leaf select) := by
  intro tokens hmarked
  obtain ⟨first, others, rfl⟩ := hmarked.exists_cons
  simp only [leaf]
  split
  · next kind hfirst =>
    refine .tail hmarked fun h => ?_
    rw [h, hselect] at hfirst
    cases hfirst
  · exact .all hmarked

/-! ## Loops -/

theorem leaves_separated {separator : Token.Kind} (hseparator : separator ≠ .endOfInput)
    {item : Parser α} (keeps : Keeps item) (hitem : Leaves item) :
    Leaves (separated separator item keeps) := by
  intro tokens hmarked
  induction tokens using (measure List.length).wf.induction with
  | _ tokens ih =>
    have hleft := hitem tokens hmarked
    rcases hfound : item tokens with left | ⟨first, _ | ⟨next, rest⟩⟩ <;> rw [hfound] at hleft
    · rw [separated_of_error hfound]
      exact hleft
    · rw [separated_of_end hfound]
      exact hleft
    · by_cases hnext : next.kind = separator
      · have hshort : rest.length < tokens.length := keeps _ _ _ hfound
        have hrest : MarkedRear rest tokens :=
          (MarkedRear.tail hleft.2 fun h => hseparator (hnext.symm.trans h)).trans hleft
        have hmore := (ih rest hshort hrest.2).trans hrest
        rw [separated_of_separator hfound hnext]
        cases hseparated : separated separator item keeps rest <;> rw [hseparated] at hmore <;>
          exact hmore
      · rw [separated_of_other hfound hnext]
        exact hleft

theorem leaves_repeated {close : Token.Kind} {item : Parser α} (consumes : Consumes item)
    (hitem : Leaves item) : Leaves (repeated close item consumes) := by
  intro tokens hmarked
  induction tokens using (measure List.length).wf.induction with
  | _ tokens ih =>
    have hleft := hitem tokens hmarked
    rcases hfound : item tokens with left | ⟨first, _ | ⟨next, rest⟩⟩ <;> rw [hfound] at hleft
    · rw [repeated_of_error hfound]
      exact hleft
    · rw [repeated_of_end hfound]
      exact hleft
    · by_cases hnext : next.kind = close
      · rw [repeated_of_close hfound hnext]
        exact hleft
      · have hshort : (next :: rest).length < tokens.length := consumes _ _ _ hfound
        have hmore := (ih (next :: rest) hshort hleft.2).trans hleft
        rw [repeated_of_more hfound hnext]
        cases hrepeated : repeated close item consumes (next :: rest) <;>
          rw [hrepeated] at hmore <;> exact hmore

/-! ## The rules -/

theorem leaves_placement : Leaves placement :=
  leaves_peek.bind fun first => by
    split
    · exact (leaves_token (by decide)).bind fun _ => leaves_pure _
    · exact (leaves_token (by decide)).bind fun _ => (leaves_token (by decide)).bind fun _ =>
        (leaves_token (by decide)).bind fun _ => leaves_pure _

theorem leaves_object : Leaves object :=
  leaves_peek.bind fun first => by
    split
    · exact (leaves_token (by decide)).bind fun _ => leaves_pure _
    · exact (leaves_token (by decide)).bind fun _ => leaves_pure _

theorem leaves_target : Leaves target :=
  leaves_peek.bind fun first => by
    split
    · exact (leaves_token (by decide)).bind fun _ => (leaves_leaf rfl).bind fun _ => leaves_pure _
    · refine (leaves_leaf rfl).bind fun attr => (leaves_token (by decide)).bind fun _ =>
        leaves_peek.bind fun next => ?_
      split
      · exact (leaves_token (by decide)).bind fun _ => (leaves_leaf rfl).bind fun _ =>
          leaves_pure _
      · exact (leaves_leaf rfl).bind fun _ => (leaves_token (by decide)).bind fun _ =>
          leaves_object.bind fun _ => leaves_pure _
      · exact leaves_object.bind fun _ => leaves_pure _

theorem leaves_literal : Leaves literal :=
  leaves_peek.bind fun first => by
    split
    · exact (leaves_token (by decide)).bind fun _ => leaves_pure _
    · exact (leaves_token (by decide)).bind fun _ =>
        (leaves_separated (by decide) _ (leaves_token (by decide))).bind fun _ =>
          (leaves_token (by decide)).bind fun _ => leaves_pure _
    · exact (leaves_leaf rfl).bind fun _ => leaves_pure _

theorem leaves_predicate (name : Token) : Leaves (predicate name) :=
  leaves_peek.bind fun first => by
    split
    · exact leaves_placement.bind fun _ => (leaves_token (by decide)).bind fun _ => leaves_pure _
    · exact (leaves_leaf rfl).bind fun _ => leaves_pure _

theorem leaves_clause : Leaves clause :=
  leaves_peek.bind fun first => by
    split
    · exact (leaves_token (by decide)).bind fun _ => (leaves_token (by decide)).bind fun _ =>
        leaves_predicate _
    · exact leaves_target.bind fun _ => (leaves_token (by decide)).bind fun _ =>
        leaves_literal.bind fun _ => leaves_pure _

theorem leaves_sentence : Leaves sentence :=
  leaves_peek.bind fun _ => (leaves_separated (by decide) _ leaves_clause).bind fun _ =>
    (leaves_token (by decide)).bind fun _ => leaves_pure _

/-- Where no program can be read, a token is left at which that shows. -/
theorem rear_of_program_eq_error {left : List Token} (hmarked : Marked tokens)
    (h : program tokens = .error left) : MarkedRear left tokens := by
  obtain ⟨first, others, rfl⟩ := hmarked.exists_cons
  have hleaves : Leaves (repeated .endOfInput sentence consumes_sentence) :=
    leaves_repeated consumes_sentence leaves_sentence
  have hleft := hleaves _ hmarked
  rw [program_cons] at h
  rcases hread : repeated .endOfInput sentence consumes_sentence (first :: others) with
    left' | ⟨sentences, rest⟩ <;> rw [hread] at h hleft
  · cases h
    exact hleft
  · -- The marker is only taken behind the last sentence, where nothing can fail any more.
    obtain ⟨next, others', rfl⟩ := hleft.2.exists_cons
    by_cases hnext : next.kind = .endOfInput
    · simp [Except.bind, token, hnext] at h
    · simp only [Except.bind, token, hnext, if_false, Except.error.injEq] at h
      exact h ▸ hleft

end Parser

namespace Program

/-- The position of the token that no program continues with. The marker behind the last token
counts as a position. -/
def stuckAt? (tokens : List Token) : Option Nat :=
  match Parser.program (tokens ++ [endMarker tokens]) with
  | .ok _ => none
  | .error left => some (tokens.length + 1 - left.length)

/-- A token list has a tree, or it is stuck at a token and fails there. -/
theorem parse_cases (tokens : List Token) :
    (stuckAt? tokens = none ∧ ∃ program, parse tokens = .ok program) ∨
      ∃ position token, stuckAt? tokens = some position ∧
        (tokens ++ [endMarker tokens])[position]? = some token ∧
        parse tokens = .error (faultAt token) := by
  simp only [stuckAt?, parse]
  have hmarked : Marked (tokens ++ [endMarker tokens]) :=
    ⟨endMarker tokens, List.mem_append_right _ (List.mem_singleton_self _), rfl⟩
  rcases hread : Parser.program (tokens ++ [endMarker tokens]) with left | ⟨program, rest⟩
  · obtain ⟨⟨front, hsplit⟩, hleft⟩ := Parser.rear_of_program_eq_error hmarked hread
    obtain ⟨token, others, rfl⟩ := hleft.exists_cons
    have hlength : front.length + (others.length + 1) = tokens.length + 1 := by
      simpa using congrArg List.length hsplit
    refine .inr ⟨front.length, token, congrArg some ?_, ?_, rfl⟩
    · rw [List.length_cons]
      omega
    · rw [← hsplit, List.getElem?_append_right (Nat.le_refl _), Nat.sub_self]
      rfl
  · exact .inl ⟨rfl, program, rfl⟩

end Program

end Tableau
