import Tableau.Proofs.Program.Grammar
import Tableau.Proofs.Program.Stuck

/-!
# Faults at the first token that cannot be right

Some kinds are `Viable` if a program with an end marker behind it starts with them. Where the parser
fails, the tokens in front of the fault are viable and with the next one they are not; the fault has
the line and the text of that one (`Program.parse_fails_at_first_wrong_token`).

A reader is `Predictive` if a look at the next token is all that it ever decides on: what it takes
does not depend on what comes behind, a fault does not depend on what comes behind the first token
that is left, and what is in front of a fault can be completed. Predictive readers can be put one
behind the other (`Predictive.bind`), and a choice by the next token is predictive if its branches
are (`predictive_peek_bind`). A list is not predictive by itself, because it looks at the token
behind it; with the word that closes it, it is (`predictive_closedList`).
-/

namespace Tableau

namespace Parser

variable {α β : Type}

/-! ## Readers with one token of lookahead -/

/-- The tokens in front of a token are taken, and the reader fails at that token. -/
def StopsAt (p : Parser α) (front : List Token) (next : Token) : Prop :=
  ∀ rest, p (front ++ next :: rest) = .error (next :: rest)

/-- With some more tokens behind them the tokens are taken, and nothing is left. -/
def Completes (p : Parser α) (front : List Token) : Prop :=
  ∃ more node, p (front ++ more) = .ok (node, [])

/-- A fault is at the token at which the reader stops, and not before it is clear. -/
def Localizes (p : Parser α) : Prop :=
  ∀ tokens next rest, p tokens = .error (next :: rest) →
    ∃ front, tokens = front ++ next :: rest ∧ StopsAt p front next ∧ Completes p front

/-- The reader decides on the next token and on no other one. -/
structure Predictive (p : Parser α) : Prop where
  accepts : ∃ tokens node, p tokens = .ok (node, [])
  takes : ∀ tokens node rest, p tokens = .ok (node, rest) →
    ∃ used, tokens = used ++ rest ∧ ∀ rest', p (used ++ rest') = .ok (node, rest')
  localizes : Localizes p

namespace Predictive

variable {p : Parser α} {q : α → Parser β}

/-- Tokens that are taken when nothing follows are taken whatever follows. -/
theorem append (h : Predictive p) {tokens : List Token} {node : α}
    (hread : p tokens = .ok (node, [])) (rest : List Token) :
    p (tokens ++ rest) = .ok (node, rest) := by
  obtain ⟨used, hused, hfree⟩ := h.takes _ _ _ hread
  rw [hused, List.append_nil]
  exact hfree rest

theorem bind (hp : Predictive p) (hq : ∀ node, Predictive (q node)) : Predictive (p >>= q) where
  accepts := by
    obtain ⟨tokens, first, hfirst⟩ := hp.accepts
    obtain ⟨others, node, hnode⟩ := (hq first).accepts
    exact ⟨tokens ++ others, node, by rw [bind_of_ok (hp.append hfirst others), hnode]⟩
  takes tokens node rest h := by
    obtain ⟨first, middle, hfirst, hnode⟩ := bind_eq_ok.1 h
    obtain ⟨used, rfl, hused⟩ := hp.takes _ _ _ hfirst
    obtain ⟨used', rfl, hused'⟩ := (hq first).takes _ _ _ hnode
    refine ⟨used ++ used', (List.append_assoc _ _ _).symm, fun rest' => ?_⟩
    rw [List.append_assoc, bind_of_ok (hused _), hused']
  localizes tokens next rest h := by
    rcases bind_eq_error.1 h with hfirst | ⟨first, middle, hfirst, hsecond⟩
    · obtain ⟨front, rfl, hstops, more, node, hmore⟩ := hp.localizes _ _ _ hfirst
      obtain ⟨others, node', hnode'⟩ := (hq node).accepts
      refine ⟨front, rfl, fun rest => bind_of_error (hstops rest), more ++ others, node', ?_⟩
      rw [← List.append_assoc, bind_of_ok (hp.append hmore others), hnode']
    · obtain ⟨used, rfl, hused⟩ := hp.takes _ _ _ hfirst
      obtain ⟨front, rfl, hstops, more, node, hmore⟩ := (hq first).localizes _ _ _ hsecond
      refine ⟨used ++ front, (List.append_assoc _ _ _).symm, fun rest => ?_, more, node, ?_⟩
      · rw [List.append_assoc, bind_of_ok (hused _), hstops]
      · rw [List.append_assoc, bind_of_ok (hused _), hmore]

end Predictive

theorem predictive_pure (node : α) : Predictive (pure node : Parser α) where
  accepts := ⟨[], node, rfl⟩
  takes tokens other rest h := by
    obtain ⟨rfl, rfl⟩ := pure_eq_ok.1 h
    exact ⟨[], rfl, fun _ => rfl⟩
  localizes tokens next rest h := nomatch h

theorem predictive_token (kind : Token.Kind) : Predictive (token kind) where
  accepts := ⟨[⟨kind, "", 0⟩], ⟨kind, "", 0⟩, token_of_kind rfl⟩
  takes tokens node rest h := by
    obtain ⟨rfl, hkind⟩ := token_eq_ok.1 h
    exact ⟨[node], rfl, fun _ => token_of_kind hkind⟩
  localizes tokens next rest h := by
    cases tokens with
    | nil => cases h
    | cons first others =>
      by_cases hkind : first.kind = kind
      · rw [token_of_kind hkind] at h
        cases h
      · rw [token_of_ne hkind] at h
        cases h
        exact ⟨[], rfl, fun _ => token_of_ne hkind, [⟨kind, "", 0⟩], _, token_of_kind rfl⟩

theorem predictive_leaf {select : Token.Kind → Option α} (kind : Token.Kind) {meaning : α}
    (hselect : select kind = some meaning) : Predictive (leaf select) := by
  have haccepts : leaf select [⟨kind, "", 0⟩] = .ok (⟨⟨kind, "", 0⟩, meaning⟩, []) := by
    simp only [leaf, hselect]
  refine ⟨⟨_, _, haccepts⟩, fun tokens node rest h => ?_, fun tokens next rest h => ?_⟩
  · cases tokens with
    | nil => cases h
    | cons first others =>
      cases hfirst : select first.kind with
      | none => simp [leaf, hfirst] at h
      | some found =>
        simp only [leaf, hfirst, Except.ok.injEq, Prod.mk.injEq] at h
        obtain ⟨rfl, rfl⟩ := h
        exact ⟨[first], rfl, fun rest' => by simp only [leaf, List.singleton_append, hfirst]⟩
  · cases tokens with
    | nil => cases h
    | cons first others =>
      cases hfirst : select first.kind with
      | some found => simp [leaf, hfirst] at h
      | none =>
        simp only [leaf, hfirst, Except.error.injEq, List.cons.injEq] at h
        obtain ⟨rfl, rfl⟩ := h
        exact ⟨[], rfl, fun rest' => by simp only [leaf, List.nil_append, hfirst], _, _, haccepts⟩

/-- A choice by the next token is predictive if every branch is, and if no branch takes nothing. -/
theorem predictive_peek_bind {q : Token → Parser β} (hconsumes : Consumes (peek >>= q))
    (haccepts : ∃ tokens node, (peek >>= q) tokens = .ok (node, []))
    (hq : ∀ first, Predictive (q first)) : Predictive (peek >>= q) where
  accepts := haccepts
  takes tokens node rest h := by
    obtain ⟨first, others, rfl, hread⟩ := peek_bind_eq_ok.1 h
    obtain ⟨used, hsplit, hused⟩ := (hq first).takes _ _ _ hread
    have hshort := hconsumes _ _ _ h
    cases used with
    | nil =>
      rw [hsplit] at hshort
      exact absurd hshort (Nat.lt_irrefl _)
    | cons first' used =>
      obtain ⟨rfl, rfl⟩ := List.cons.inj hsplit
      exact ⟨first :: used, rfl, fun rest' => peek_bind_eq_ok.2 ⟨first, _, rfl, hused rest'⟩⟩
  localizes tokens next rest h := by
    cases tokens with
    | nil => cases h
    | cons first others =>
      have hread : q first (first :: others) = .error (next :: rest) := h
      obtain ⟨front, hsplit, hstops, more, node, hmore⟩ := (hq first).localizes _ _ _ hread
      cases front with
      | nil =>
        -- The token itself selects the branch that fails at it.
        obtain ⟨rfl, rfl⟩ := List.cons.inj hsplit
        obtain ⟨tokens, node, hnode⟩ := haccepts
        exact ⟨[], rfl, hstops, tokens, node, hnode⟩
      | cons first' front =>
        obtain ⟨rfl, rfl⟩ := List.cons.inj hsplit
        exact ⟨first :: front, rfl, hstops, more, node, hmore⟩

/-! ## Lists -/

section Lists

variable {separator close : Token.Kind} {item : Parser α} {tokens rest : List Token} {next : Token}

/-- A list fails where one of its items fails. -/
theorem localizes_separated (keeps : Keeps item) (hitem : Predictive item) :
    Localizes (separated separator item keeps) := by
  intro tokens next rest h
  fun_induction separated separator item keeps tokens generalizing next rest with
  | case1 tokens left hleft =>
    obtain rfl := Except.error.inj h
    obtain ⟨front, rfl, hstops, more, node, hmore⟩ := hitem.localizes _ _ _ hleft
    exact ⟨front, rfl, fun rest => separated_of_error (hstops rest), more, [node],
      separated_of_end hmore⟩
  | case2 => cases h
  | case3 tokens first between middle hfirst hbetween left hmore ih =>
    obtain rfl := Except.error.inj h
    obtain ⟨used, rfl, hused⟩ := hitem.takes _ _ _ hfirst
    obtain ⟨front, rfl, hstops, more, nodes, hnodes⟩ := ih _ _ hmore
    refine ⟨used ++ between :: front, by simp, fun rest => ?_, more, first :: nodes, ?_⟩
    · rw [List.append_assoc, List.cons_append, separated_of_separator (hused _) hbetween, hstops]
      rfl
    · rw [List.append_assoc, List.cons_append, separated_of_separator (hused _) hbetween, hnodes]
      rfl
  | case4 => cases h
  | case5 => cases h

/-- What is read of a list stays read as long as no separator is next. -/
theorem takes_separated {spelled : α → List Token → Prop} (hreads : Reads item spelled)
    {keeps : Keeps item} {items : List α}
    (h : separated separator item keeps tokens = .ok (items, rest)) :
    ∃ used, tokens = used ++ rest ∧ (∀ next ∈ rest.head?, next.kind ≠ separator) ∧
      ∀ next rest', next.kind ≠ separator →
        separated separator item keeps (used ++ next :: rest') = .ok (items, next :: rest') := by
  obtain ⟨used, rfl, hused, hlast⟩ := (separated_eq_ok hreads).1 h
  exact ⟨used, rfl, hlast, fun next rest' hnext =>
    (separated_eq_ok hreads).2 ⟨used, rfl, hused, by simpa using hnext⟩⟩

/-- A list and the word that closes it. -/
def closedList (separator close : Token.Kind) (item : Parser α) (keeps : Keeps item)
    (node : List α → β) : Parser β := do
  let items ← separated separator item keeps
  let _ ← token close
  return node items

variable {keeps : Keeps item} {items : List α} {node : List α → β}

theorem closedList_of_close (h : separated separator item keeps tokens = .ok (items, next :: rest))
    (hnext : next.kind = close) :
    closedList separator close item keeps node tokens = .ok (node items, rest) := by
  rw [closedList, bind_of_ok h, bind_of_ok (token_of_kind hnext)]
  rfl

theorem closedList_of_ne (h : separated separator item keeps tokens = .ok (items, next :: rest))
    (hnext : next.kind ≠ close) :
    closedList separator close item keeps node tokens = .error (next :: rest) := by
  rw [closedList, bind_of_ok h, bind_of_error (token_of_ne hnext)]

/-- A list that could end can be closed. -/
theorem closedList_append {spelled : α → List Token → Prop} (hreads : Reads item spelled)
    (hne : close ≠ separator) (h : separated separator item keeps tokens = .ok (items, [])) :
    closedList separator close item keeps node (tokens ++ [⟨close, "", 0⟩]) =
      .ok (node items, []) := by
  obtain ⟨used, hused, -, hfree⟩ := takes_separated hreads h
  rw [hused, List.append_nil]
  exact closedList_of_close (hfree _ [] hne) rfl

theorem predictive_closedList {spelled : α → List Token → Prop} (hreads : Reads item spelled)
    (keeps : Keeps item) (hitem : Predictive item) (hne : close ≠ separator)
    (node : List α → β) : Predictive (closedList separator close item keeps node) where
  accepts := by
    obtain ⟨tokens, first, hfirst⟩ := hitem.accepts
    exact ⟨_, _, closedList_append hreads hne (separated_of_end hfirst)⟩
  takes tokens found rest h := by
    obtain ⟨items, middle, hitems, hclosed⟩ := bind_eq_ok.1 h
    obtain ⟨last, others, rfl, hlast, hnode⟩ := token_bind_eq_ok.1 hclosed
    obtain ⟨rfl, rfl⟩ := pure_eq_ok.1 hnode
    obtain ⟨used, rfl, -, hfree⟩ := takes_separated hreads hitems
    refine ⟨used ++ [last], by simp, fun rest' => ?_⟩
    rw [List.append_assoc]
    exact closedList_of_close (hfree last rest' (hlast ▸ hne)) hlast
  localizes tokens next rest h := by
    rcases bind_eq_error.1 h with hitems | ⟨items, middle, hitems, hclosed⟩
    · obtain ⟨front, rfl, hstops, more, items, hmore⟩ :=
        localizes_separated keeps hitem _ _ _ hitems
      refine ⟨front, rfl, fun rest => bind_of_error (hstops rest), more ++ [⟨close, "", 0⟩],
        node items, ?_⟩
      rw [← List.append_assoc]
      exact closedList_append hreads hne hmore
    · obtain ⟨used, rfl, hlast, hfree⟩ := takes_separated hreads hitems
      cases middle with
      | nil => cases hclosed
      | cons other others =>
        by_cases hother : other.kind = close
        · rw [bind_of_ok (token_of_kind hother)] at hclosed
          cases hclosed
        · -- The token behind the items neither separates nor closes.
          rw [bind_of_error (token_of_ne hother)] at hclosed
          cases hclosed
          exact ⟨used, rfl, fun rest' => closedList_of_ne (hfree _ rest' (hlast _ rfl)) hother,
            [⟨close, "", 0⟩], _, closedList_of_close (hfree _ [] hne) rfl⟩

/-- Items up to a closing token fail where one of them fails. -/
theorem localizes_repeated {consumes : Consumes item} (hitem : Predictive item)
    (h : repeated close item consumes tokens = .error (next :: rest)) :
    ∃ front, tokens = front ++ next :: rest ∧ StopsAt (repeated close item consumes) front next ∧
      ∃ more items, ∀ last : Token, last.kind = close →
        repeated close item consumes (front ++ more ++ [last]) = .ok (items, [last]) := by
  fun_induction repeated close item consumes tokens generalizing next rest with
  | case1 tokens left hleft =>
    obtain rfl := Except.error.inj h
    obtain ⟨front, rfl, hstops, more, node, hmore⟩ := hitem.localizes _ _ _ hleft
    exact ⟨front, rfl, fun rest => repeated_of_error (hstops rest), more, [node],
      fun last hlast => repeated_of_close (hitem.append hmore [last]) hlast⟩
  | case2 => cases h
  | case3 => cases h
  | case4 tokens first between middle hfirst hbetween left hmore ih =>
    obtain rfl := Except.error.inj h
    obtain ⟨used, rfl, hused⟩ := hitem.takes _ _ _ hfirst
    obtain ⟨front, hsplit, hstops, more, items, hitems⟩ := ih hmore
    cases front with
    | nil =>
      -- The next item fails at its first token, so the items before it could have been all.
      obtain ⟨rfl, rfl⟩ := List.cons.inj hsplit
      refine ⟨used, rfl, fun rest => ?_, [], [first], fun last hlast => ?_⟩
      · rw [repeated_of_more (hused _) hbetween]
        exact congrArg _ (hstops rest)
      · rw [List.append_nil]
        exact repeated_of_close (hused _) hlast
    | cons between' front =>
      obtain ⟨rfl, rfl⟩ := List.cons.inj hsplit
      refine ⟨used ++ between :: front, by simp, fun rest => ?_, more, first :: items,
        fun last hlast => ?_⟩
      · rw [List.append_assoc, List.cons_append, repeated_of_more (hused _) hbetween,
          ← List.cons_append, hstops]
        rfl
      · rw [List.append_assoc, List.append_assoc, List.cons_append,
          repeated_of_more (hused _) hbetween, ← List.cons_append, ← List.append_assoc,
          hitems last hlast]
        rfl
  | case5 => cases h

end Lists

/-! ## The rules -/

theorem predictive_shape : Predictive shape := predictive_leaf (.shape .circle) rfl

theorem predictive_attr : Predictive attr := predictive_leaf (.attr .size) rfl

theorem predictive_area : Predictive area := predictive_leaf (.area .border) rfl

theorem predictive_color : Predictive color := predictive_leaf (.color .red) rfl

theorem predictive_placement : Predictive placement :=
  predictive_peek_bind consumes_placement ⟨[⟨.behind, "", 0⟩], _, rfl⟩ fun first => by
    split
    · exact (predictive_token _).bind fun _ => predictive_pure _
    · exact (predictive_token _).bind fun _ => (predictive_token _).bind fun _ =>
        (predictive_token _).bind fun _ => predictive_pure _

theorem predictive_object : Predictive object :=
  predictive_peek_bind consumes_object ⟨[⟨.canvas, "", 0⟩], _, rfl⟩ fun first => by
    split
    · exact (predictive_token _).bind fun _ => predictive_pure _
    · exact (predictive_token _).bind fun _ => predictive_pure _

theorem predictive_target : Predictive target :=
  predictive_peek_bind consumes_target ⟨[⟨.its, "", 0⟩, ⟨.attr .size, "", 0⟩], _, rfl⟩
    fun first => by
    split
    · exact (predictive_token _).bind fun _ => predictive_attr.bind fun _ => predictive_pure _
    · refine predictive_attr.bind fun attr => (predictive_token _).bind fun _ =>
        predictive_peek_bind (keeps_peek.bind_consumes fun next => ?_) ⟨[⟨.canvas, "", 0⟩], _, rfl⟩
          fun next => ?_
      · split
        · exact (consumes_token _).bind fun _ => (consumes_leaf _).keeps.bind fun _ => keeps_pure _
        · exact (consumes_leaf _).bind fun _ => (consumes_token _).keeps.bind fun _ =>
            consumes_object.keeps.bind fun _ => keeps_pure _
        · exact consumes_object.bind fun _ => keeps_pure _
      · split
        · exact (predictive_token _).bind fun _ => predictive_area.bind fun _ => predictive_pure _
        · exact predictive_area.bind fun _ => (predictive_token _).bind fun _ =>
            predictive_object.bind fun _ => predictive_pure _
        · exact predictive_object.bind fun _ => predictive_pure _

theorem predictive_literal : Predictive literal :=
  predictive_peek_bind consumes_literal ⟨[⟨.number, "", 0⟩], _, rfl⟩ fun first => by
    split
    · exact (predictive_token _).bind fun _ => predictive_pure _
    · exact (predictive_token _).bind fun _ =>
        predictive_closedList (reads_token _) _ (predictive_token _) (by decide)
          (Literal.tuple first)
    · exact predictive_color.bind fun _ => predictive_pure _

theorem predictive_predicate (name : Token) : Predictive (predicate name) :=
  predictive_peek_bind (consumes_predicate name) ⟨[⟨.shape .circle, "", 0⟩], _, rfl⟩
    fun first => by
    split
    · exact predictive_placement.bind fun _ => (predictive_token _).bind fun _ => predictive_pure _
    · exact predictive_shape.bind fun _ => predictive_pure _

theorem predictive_clause : Predictive clause :=
  predictive_peek_bind consumes_clause
    ⟨[⟨.name, "", 0⟩, ⟨.is, "", 0⟩, ⟨.shape .circle, "", 0⟩], _, rfl⟩ fun first => by
    split
    · exact (predictive_token _).bind fun _ => (predictive_token _).bind fun _ =>
        predictive_predicate _
    · exact predictive_target.bind fun _ => (predictive_token _).bind fun _ =>
        predictive_literal.bind fun _ => predictive_pure _

theorem predictive_sentence : Predictive sentence := by
  have hspelled : Sentence.SpelledBy _ [⟨.name, "", 0⟩, ⟨.is, "", 0⟩, ⟨.shape .circle, "", 0⟩,
    ⟨.period, "", 0⟩] := .intro (.one (.declare rfl rfl rfl)) rfl
  have haccepts := reads_sentence.read hspelled []
  exact predictive_peek_bind consumes_sentence ⟨_, _, haccepts⟩ fun first =>
    predictive_closedList reads_clause _ predictive_clause (by decide) (Sentence.mk first)

theorem program_of_ne_nil {tokens : List Token} (h : tokens ≠ []) : program tokens =
    (repeated .endOfInput sentence consumes_sentence tokens).bind fun found =>
      (token .endOfInput found.2).bind fun last => .ok (⟨tokens.head h, found.1⟩, last.2) := by
  obtain ⟨first, others, rfl⟩ := List.exists_cons_of_ne_nil h
  exact program_cons first others

/-- A program fails where one of its sentences fails. -/
theorem localizes_program : Localizes program := by
  intro tokens next rest h
  have hne : tokens ≠ [] := by
    rintro rfl
    cases h
  rw [program_of_ne_nil hne] at h
  rcases hread : repeated .endOfInput sentence consumes_sentence tokens with
    left | ⟨sentences, left⟩
  · rw [hread] at h
    obtain rfl := Except.error.inj h
    obtain ⟨front, rfl, hstops, more, sentences, hmore⟩ :=
      localizes_repeated predictive_sentence hread
    have hmarked := hmore ⟨.endOfInput, "", 0⟩ rfl
    refine ⟨front, rfl, fun rest => ?_, more ++ [⟨.endOfInput, "", 0⟩], ?_⟩
    · rw [program_of_ne_nil (by simp), hstops]
      rfl
    · rw [← List.append_assoc, program_of_ne_nil (by simp), hmarked]
      exact ⟨_, rfl⟩
  · -- Behind the last sentence is an end marker, where nothing can fail any more.
    obtain ⟨-, -, -, last, hhead, hlast⟩ :=
      (repeated_eq_ok reads_sentence fun _ _ h => h.start).1 hread
    obtain ⟨others, rfl⟩ := List.head?_eq_some_iff.1 hhead
    rw [hread] at h
    simp [Except.bind, token_of_kind hlast] at h

end Parser

/-! ## Viable kinds -/

namespace Phrase

/-- A program with an end marker behind it starts with the kinds. -/
def Viable (kinds : List Token.Kind) : Prop :=
  ∃ program, Derives (.symbol .program) program ∧ kinds <+: program ++ [.endOfInput]

end Phrase

open Phrase

section Viable

variable {front : List Token} {next : Token}

/-- The kinds of tokens that can be completed are viable. -/
theorem viable_of_completes (h : Parser.Completes Parser.program front) :
    Viable (front.map Token.kind) := by
  obtain ⟨more, program, hread⟩ := h
  obtain ⟨used, marker, hsplit, hmarker, hspelled⟩ := Parser.program_eq_ok.1 hread
  refine ⟨used.map Token.kind, hspelled.derives, more.map Token.kind, ?_⟩
  rw [← List.map_append, hsplit, List.map_append, List.map_singleton, hmarker]

/-- Where the parser stops whatever follows, no program goes on. -/
theorem not_viable_of_stopsAt (h : Parser.StopsAt Parser.program front next) :
    ¬Viable ((front ++ [next]).map Token.kind) := by
  rintro ⟨kinds, hderives, others, hkinds⟩
  -- Tokens of these kinds would be read.
  let rest : List Token := others.map fun kind => ⟨kind, "", 0⟩
  have hrest : (front ++ next :: rest).map Token.kind = kinds ++ [.endOfInput] := by
    rw [← hkinds]
    simp [rest, Function.comp_def]
  obtain ⟨used, last, hsplit, rfl, hlast⟩ := List.map_eq_append_iff.1 hrest
  obtain ⟨marker, rfl, hmarker⟩ := List.map_eq_singleton_iff.1 hlast
  obtain ⟨program, hprogram⟩ := exists_program hderives
  have hread := Parser.program_eq_ok.2 ⟨used, marker, hsplit, hmarker, hprogram⟩
  rw [h rest] at hread
  cases hread

end Viable

namespace Program

theorem line_faultAt (token : Token) : (faultAt token).line = token.line := by
  unfold faultAt
  split <;> rfl

theorem stage_faultAt (token : Token) : (faultAt token).stage = .parsing := by
  unfold faultAt
  split <;> rfl

theorem message_faultAt (token : Token) : (faultAt token).message =
    "wrong syntax at " ++
      if token.kind = .endOfInput then "end of input" else "\"" ++ token.text ++ "\"" := by
  unfold faultAt
  split <;> rfl

/-- **The parser fails at the first token that cannot be right**: the kinds of the tokens in front
of it are the start of a program with an end marker behind it, with its own kind they are not, and
the fault has its line and its text. -/
theorem parse_fails_at_first_wrong_token {tokens : List Token} {fault : Fault}
    (h : parse tokens = .error fault) :
    ∃ position token, (tokens ++ [endMarker tokens])[position]? = some token ∧
      Viable (((tokens ++ [endMarker tokens]).take position).map Token.kind) ∧
      ¬Viable (((tokens ++ [endMarker tokens]).take (position + 1)).map Token.kind) ∧
      fault.stage = .parsing ∧ fault.line = token.line ∧ fault.message = "wrong syntax at " ++
        if token.kind = .endOfInput then "end of input" else "\"" ++ token.text ++ "\"" := by
  have hmarked : Marked (tokens ++ [endMarker tokens]) :=
    ⟨endMarker tokens, List.mem_append_right _ (List.mem_singleton_self _), rfl⟩
  simp only [parse] at h
  rcases hread : Parser.program (tokens ++ [endMarker tokens]) with left | found
  · obtain ⟨-, hleft⟩ := Parser.rear_of_program_eq_error hmarked hread
    obtain ⟨token, others, rfl⟩ := hleft.exists_cons
    obtain ⟨front, hsplit, hstops, hcompletes⟩ := Parser.localizes_program _ _ _ hread
    rw [hread] at h
    obtain rfl : faultAt token = fault := Except.error.inj h
    refine ⟨front.length, token, ?_, ?_, ?_, stage_faultAt token, line_faultAt token,
      message_faultAt token⟩
    · rw [hsplit, List.getElem?_append_right (Nat.le_refl _), Nat.sub_self]
      rfl
    · rw [hsplit, List.take_left]
      exact viable_of_completes hcompletes
    · rw [hsplit, List.append_cons, List.take_left' (by simp)]
      exact not_viable_of_stopsAt hstops
  · rw [hread] at h
    cases h

/-- `A is` can be continued, but not with the end marker that the list has there. -/
theorem parse_fails_at_first_wrong_token_of_marker :
    let tokens : List Token := [⟨.name, "A", 1⟩, ⟨.is, "is", 1⟩, ⟨.endOfInput, "", 2⟩,
      ⟨.shape .circle, "circle", 3⟩, ⟨.period, ".", 3⟩]
    let fault : Fault := ⟨.unexpectedEnd, 2⟩
    parse tokens = .error fault ∧
      ∃ position token, (tokens ++ [endMarker tokens])[position]? = some token ∧
        Viable (((tokens ++ [endMarker tokens]).take position).map Token.kind) ∧
        ¬Viable (((tokens ++ [endMarker tokens]).take (position + 1)).map Token.kind) ∧
        fault.stage = .parsing ∧ fault.line = token.line ∧ fault.message = "wrong syntax at " ++
          if token.kind = .endOfInput then "end of input" else "\"" ++ token.text ++ "\"" := by
  intro tokens fault
  have hclause : Parser.clause (tokens ++ [endMarker tokens]) =
      .error ((tokens ++ [endMarker tokens]).drop 2) := rfl
  have hsentence : Parser.sentence (tokens ++ [endMarker tokens]) = .error _ :=
    (Parser.bind_of_ok rfl).trans (Parser.bind_of_error (Parser.separated_of_error hclause))
  have hprogram : Parser.program (tokens ++ [endMarker tokens]) = .error _ :=
    (Parser.bind_of_ok rfl).trans (Parser.bind_of_error (Parser.repeated_of_error hsentence))
  have hparse : parse tokens = .error fault := by
    simp only [parse, hprogram]
    rfl
  exact ⟨hparse, parse_fails_at_first_wrong_token hparse⟩

end Program

end Tableau
