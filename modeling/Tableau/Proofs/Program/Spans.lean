import Mathlib.Data.List.Forall2
import Tableau.Proofs.Program.Spelling

/-!
# The tokens of clauses

`Clause.tokens` are the tokens that the nodes of a clause keep, and `Clause.texts` are those among
them of which the text counts. A clause keeps tokens of its spelling only, and the text counts of
names and numbers only.

No clause is spelled with an `and` or a period, and one of the two stands behind every clause of a
program. So the tokens between them are the spellings of the clauses one by one
(`Program.SpelledBy.spans`).
-/

namespace Tableau

/-! ## The tokens that a clause keeps -/

def Object.tokens : Object → List Token
  | shape token name => [token, name]
  | canvas token => [token]

def Target.tokens : Target → List Token
  | plain token attr object => token :: attr.token :: object.tokens
  | area token attr part object => token :: attr.token :: part.token :: object.tokens
  | implicit token attr => [token, attr.token]
  | implicitArea token attr part => [token, attr.token, part.token]

/-- The numbers that a literal is written with. -/
def Literal.numbers : Literal → List Token
  | number _ digits => [digits]
  | tuple _ numbers => numbers
  | color .. => []

def Literal.tokens : Literal → List Token
  | number token digits => [token, digits]
  | tuple token numbers => token :: numbers
  | color token word => [token, word.token]

/-- The tokens that the nodes of a clause keep. -/
def Clause.tokens : Clause → List Token
  | declare token name word => [token, name, word.token]
  | place token first placement second => [token, first, placement.token, second]
  | assign token target value => token :: target.tokens ++ value.tokens

/-- The name that an assignment says outright. -/
def Target.names (target : Target) : List Token :=
  match target.object? with
  | some (.shape _ name) => [name]
  | some (.canvas _) | none => []

/-- The tokens of a clause of which the text counts. -/
def Clause.texts : Clause → List Token
  | declare _ name _ => [name]
  | place _ first _ second => [first, second]
  | assign _ target value => target.names ++ value.numbers

/-! ## Clauses keep tokens of their spelling -/

section Spelled

variable {used : List Token}

theorem Separated.mem_of_numbers {numbers : List Token}
    (h : Separated .comma (Token.SpelledBy .number) numbers used) :
    ∀ number ∈ numbers, number ∈ used ∧ number.kind = .number := by
  induction h with
  | one hnumber =>
    obtain ⟨rfl, hkind⟩ := hnumber
    exact List.forall_mem_singleton.2 ⟨List.mem_singleton_self _, hkind⟩
  | more hnumber _ _ ih =>
    obtain ⟨rfl, hkind⟩ := hnumber
    refine List.forall_mem_cons.2 ⟨⟨List.mem_cons_self, hkind⟩, fun number hmem => ?_⟩
    obtain ⟨hused, hkind⟩ := ih number hmem
    exact ⟨List.mem_append_right _ (List.mem_cons_of_mem _ hused), hkind⟩

theorem Placement.SpelledBy.token_mem {word : Leaf Placement} (h : Placement.SpelledBy word used) :
    word.token ∈ used := by
  obtain ⟨others, rfl, -⟩ := h.head
  exact List.mem_cons_self

theorem Object.SpelledBy.tokens_subset {object : Object} (h : object.SpelledBy used) :
    object.tokens ⊆ used := by
  cases h with
  | shape | canvas => simp [Object.tokens]

theorem Target.SpelledBy.tokens_subset {target : Target} (h : target.SpelledBy used) :
    target.tokens ⊆ used := by
  cases h with
  | implicit | implicitArea => simp [Target.tokens]
  | area _ _ _ _ hobject | plain _ _ hobject =>
    have hkept := hobject.tokens_subset
    intro token htoken
    simp only [Target.tokens, List.mem_cons] at htoken
    grind

theorem Literal.SpelledBy.tokens_subset {literal : Literal} (h : literal.SpelledBy used) :
    literal.tokens ⊆ used := by
  cases h with
  | number | color => simp [Literal.tokens]
  | tuple _ hnumbers _ =>
    refine List.cons_subset.2 ⟨by simp, fun number hmem => ?_⟩
    have hused := (hnumbers.mem_of_numbers number hmem).1
    simp [hused]

/-- The nodes of a clause keep tokens of its spelling. -/
theorem Clause.SpelledBy.tokens_subset {clause : Clause} (h : clause.SpelledBy used) :
    clause.tokens ⊆ used := by
  cases h with
  | declare => simp [Clause.tokens]
  | place _ _ hplacement _ => simp [Clause.tokens, hplacement.token_mem]
  | assign htarget _ hvalue =>
    have htargets := htarget.tokens_subset
    have hvalues := hvalue.tokens_subset
    intro token htoken
    simp only [Clause.tokens, List.cons_append, List.mem_cons, List.mem_append] at htoken
    grind

/-! ## The text counts of names and numbers -/

theorem Target.names_subset (target : Target) : target.names ⊆ target.tokens := by
  cases target with
  | plain _ _ object | area _ _ _ object =>
    cases object <;> simp [names, object?, tokens, Object.tokens]
  | implicit | implicitArea => exact List.nil_subset _

theorem Literal.numbers_subset (literal : Literal) : literal.numbers ⊆ literal.tokens := by
  cases literal <;> simp [numbers, tokens]

theorem Clause.texts_subset (clause : Clause) : clause.texts ⊆ clause.tokens := by
  cases clause with
  | declare | place => simp [texts, tokens]
  | assign _ target value =>
    exact List.append_subset.2 ⟨fun name hname => by simp [tokens, target.names_subset hname],
      fun number hnumber => by simp [tokens, value.numbers_subset hnumber]⟩

theorem Target.SpelledBy.kind_of_mem_names {target : Target} (h : target.SpelledBy used) :
    ∀ name ∈ target.names, name.kind = .name := by
  cases h with
  | implicit | implicitArea => simp [Target.names, Target.object?]
  | area _ _ _ _ hobject | plain _ _ hobject =>
    cases hobject with
    | shape hname => exact List.forall_mem_singleton.2 hname
    | canvas => exact fun _ h => nomatch h

theorem Literal.SpelledBy.kind_of_mem_numbers {literal : Literal} (h : literal.SpelledBy used) :
    ∀ number ∈ literal.numbers, number.kind = .number := by
  cases h with
  | number hnumber => exact List.forall_mem_singleton.2 hnumber
  | tuple _ hnumbers _ => exact fun number hmem => (hnumbers.mem_of_numbers number hmem).2
  | color => exact fun _ h => nomatch h

/-- Of a clause that is spelled, the text counts of names and numbers only. -/
theorem Clause.SpelledBy.kind_of_mem_texts {clause : Clause} (h : clause.SpelledBy used) :
    ∀ token ∈ clause.texts, token.kind = .name ∨ token.kind = .number := by
  cases h with
  | declare hname => exact List.forall_mem_singleton.2 (.inl hname)
  | place hfirst _ _ hsecond =>
    exact List.forall_mem_cons.2 ⟨.inl hfirst, List.forall_mem_singleton.2 (.inl hsecond)⟩
  | assign htarget _ hvalue =>
    exact List.forall_mem_append.2 ⟨fun name hname => .inl (htarget.kind_of_mem_names name hname),
      fun number hnumber => .inr (hvalue.kind_of_mem_numbers number hnumber)⟩

end Spelled

/-! ## One clause after the other -/

/-- Whether a token of the kind stands behind a clause. -/
def Token.Kind.endsClause : Kind → Bool
  | and | period => true
  | _ => false

/-- The tokens in front of each `and` and each period. -/
def Token.spans (tokens : List Token) : List (List Token) :=
  (tokens.splitOnP (·.kind.endsClause)).dropLast

@[simp] theorem Token.spans_nil : spans [] = [] := rfl

/-- A span leaves tokens out and keeps the order of the others. -/
theorem Token.sublist_of_mem_spans {tokens span : List Token} (h : span ∈ spans tokens) :
    span.Sublist tokens := by
  have hsplit : ∀ part ∈ tokens.splitOnP (·.kind.endsClause), part.Sublist tokens := by
    clear h
    induction tokens with
    | nil => exact List.forall_mem_singleton.2 (List.Sublist.refl _)
    | cons token tokens ih =>
      rw [List.splitOnP_cons_eq_if_modifyHead]
      split
      · exact List.forall_mem_cons.2 ⟨List.nil_sublist _, fun part hpart => (ih part hpart).cons _⟩
      · obtain ⟨part, parts, hparts⟩ :=
          List.exists_cons_of_ne_nil (List.splitOnP_ne_nil (·.kind.endsClause) tokens)
        rw [hparts, List.forall_mem_cons] at ih
        rw [hparts]
        refine List.forall_mem_cons.2 ⟨ih.1.cons_cons _, fun other hother => ?_⟩
        exact (ih.2 other hother).cons _
  exact hsplit span (List.dropLast_subset _ h)

theorem Token.spans_append_cons {used : List Token}
    (h : ∀ token ∈ used, token.kind.endsClause = false) {last : Token}
    (hlast : last.kind.endsClause = true) (rest : List Token) :
    spans (used ++ last :: rest) = used :: spans rest := by
  unfold spans
  rw [List.splitOnP_append_cons_of_forall_mem h _ hlast,
    List.dropLast_cons_of_ne_nil (List.splitOnP_ne_nil _ _)]

section Spelled

variable {used : List Token}

theorem Placement.SpelledBy.not_endsClause {word : Leaf Placement}
    (h : Placement.SpelledBy word used) : ∀ token ∈ used, token.kind.endsClause = false := by
  cases h with
  | front hwithin hfront hof => simp [hwithin, hfront, hof, Token.Kind.endsClause]
  | behind hbehind => simp [hbehind, Token.Kind.endsClause]

theorem Object.SpelledBy.not_endsClause {object : Object} (h : object.SpelledBy used) :
    ∀ token ∈ used, token.kind.endsClause = false := by
  cases h with
  | shape hkind | canvas hkind => simp [hkind, Token.Kind.endsClause]

theorem Target.SpelledBy.not_endsClause {target : Target} (h : target.SpelledBy used) :
    ∀ token ∈ used, token.kind.endsClause = false := by
  cases h with
  | implicit hits hattr => simp [hits, hattr, Token.Kind.endsClause]
  | implicitArea hattr hof hits hpart => simp [hattr, hof, hits, hpart, Token.Kind.endsClause]
  | area hattr hof hpart hof' hobject =>
    simpa [hattr, hof, hpart, hof', Token.Kind.endsClause] using hobject.not_endsClause
  | plain hattr hof hobject =>
    simpa [hattr, hof, Token.Kind.endsClause] using hobject.not_endsClause

theorem Separated.not_endsClause {numbers : List Token}
    (h : Separated .comma (Token.SpelledBy .number) numbers used) :
    ∀ token ∈ used, token.kind.endsClause = false := by
  induction h with
  | one hnumber =>
    obtain ⟨rfl, hkind⟩ := hnumber
    simp [hkind, Token.Kind.endsClause]
  | more hnumber hcomma _ ih =>
    obtain ⟨rfl, hkind⟩ := hnumber
    simpa [hkind, hcomma, Token.Kind.endsClause] using ih

theorem Literal.SpelledBy.not_endsClause {literal : Literal} (h : literal.SpelledBy used) :
    ∀ token ∈ used, token.kind.endsClause = false := by
  cases h with
  | number hkind | color hkind => simp [hkind, Token.Kind.endsClause]
  | tuple hleft hnumbers hright =>
    have hinner := hnumbers.not_endsClause
    simp only [List.cons_append, List.forall_mem_cons, List.forall_mem_append]
    exact ⟨by simp [hleft, Token.Kind.endsClause], hinner, by simp [hright, Token.Kind.endsClause]⟩

/-- No clause has a token in it that ends clauses. -/
theorem Clause.SpelledBy.not_endsClause {clause : Clause} (h : clause.SpelledBy used) :
    ∀ token ∈ used, token.kind.endsClause = false := by
  cases h with
  | declare hname his hword => simp [hname, his, hword, Token.Kind.endsClause]
  | place hname his hplacement hsecond =>
    have hinner := hplacement.not_endsClause
    simp only [List.cons_append, List.forall_mem_cons, List.forall_mem_append]
    exact ⟨by simp [hname, Token.Kind.endsClause], by simp [his, Token.Kind.endsClause], hinner,
      by simp [hsecond, Token.Kind.endsClause]⟩
  | assign htarget his hvalue =>
    refine List.forall_mem_append.2 ⟨htarget.not_endsClause, List.forall_mem_cons.2 ⟨?_, ?_⟩⟩
    · simp [his, Token.Kind.endsClause]
    · exact hvalue.not_endsClause

theorem Separated.spans {clauses : List Clause} (h : Separated .and Clause.SpelledBy clauses used)
    {period : Token} (hperiod : period.kind = .period) (rest : List Token) :
    ∃ spans, Token.spans (used ++ period :: rest) = spans ++ Token.spans rest ∧
      List.Forall₂ Clause.SpelledBy clauses spans := by
  induction h with
  | @one clause used hclause =>
    have hspan := Token.spans_append_cons hclause.not_endsClause
      (by simp [hperiod, Token.Kind.endsClause] : period.kind.endsClause = true) rest
    exact ⟨[used], hspan, .cons hclause .nil⟩
  | @more clause clauses used others between hclause hbetween _ ih =>
    obtain ⟨spans, hspans, hothers⟩ := ih
    have hspan := Token.spans_append_cons hclause.not_endsClause
      (by simp [hbetween, Token.Kind.endsClause] : between.kind.endsClause = true)
      (others ++ period :: rest)
    refine ⟨used :: spans, ?_, .cons hclause hothers⟩
    rw [List.append_assoc, List.cons_append, hspan, hspans, List.cons_append]

theorem Sentence.SpelledBy.spans {sentence : Sentence} (h : sentence.SpelledBy used)
    (rest : List Token) : ∃ spans, Token.spans (used ++ rest) = spans ++ Token.spans rest ∧
      List.Forall₂ Clause.SpelledBy sentence.clauses spans := by
  cases h with
  | intro hclauses hperiod =>
    rw [List.append_assoc]
    exact hclauses.spans hperiod rest

theorem Repeated.spans {sentences : List Sentence}
    (h : Repeated Sentence.SpelledBy sentences used) :
    List.Forall₂ Clause.SpelledBy (sentences.flatMap (·.clauses)) (Token.spans used) := by
  induction h with
  | @one sentence used hsentence =>
    obtain ⟨spans, hspans, hclauses⟩ := hsentence.spans []
    rw [List.append_nil, Token.spans_nil, List.append_nil] at hspans
    rwa [hspans, List.flatMap_singleton]
  | @more sentence sentences used others hsentence _ ih =>
    obtain ⟨spans, hspans, hclauses⟩ := hsentence.spans others
    rw [hspans, List.flatMap_cons]
    exact List.rel_append hclauses ih

/-- The spans of a program's tokens are the spellings of its clauses. -/
theorem Program.SpelledBy.spans {program : Program} (h : program.SpelledBy used) :
    List.Forall₂ Clause.SpelledBy program.clauses (Token.spans used) := by
  cases h with
  | intro hsentences => exact hsentences.spans

/-- Every clause of a program is spelled by the span at its position. -/
theorem Program.SpelledBy.exists_span {program : Program} (h : program.SpelledBy used)
    {position : Nat} {clause : Clause} (hclause : program.clauses[position]? = some clause) :
    ∃ span, (Token.spans used)[position]? = some span ∧ clause.SpelledBy span := by
  obtain ⟨hlength, hspelled⟩ := List.forall₂_iff_get.1 h.spans
  obtain ⟨hposition, rfl⟩ := List.getElem?_eq_some_iff.1 hclause
  exact ⟨_, List.getElem?_eq_getElem (hlength ▸ hposition), hspelled position _ _⟩

end Spelled

end Tableau
