import Tableau.Fault
import Tableau.Program

/-!
# Parsing

The grammar, with one token of lookahead at every choice:

```text
Program   := Sentence+
Sentence  := Clause ("and" Clause)* "."
Clause    := Name "is" Shape | Name "is" Placement Name | Target "is" Literal
Target    := "its" Attribute | Attribute "of" "its" Area
           | Attribute "of" Area "of" Object | Attribute "of" Object
Object    := Name | "canvas"
Literal   := Number | "(" Number ("," Number)* ")" | Color
Placement := "in" "front" "of" | "behind"
```

A `Parser` reads one rule from the front of the tokens. Where it fails it answers with the tokens
that are left, so the first of them is the token that no program continues with. No rule ever adds a
token (`Keeps`), and most remove at least one (`Consumes`); that is why the two loops of the grammar
end.

`Program.parse` puts an end marker behind the tokens, one line below the last of them. A program ends
where an end marker follows a period, be it this one or one of the list.
-/

namespace Tableau

/-- A reader of one rule: the node and the tokens behind it, or the tokens at which it failed. -/
abbrev Parser := StateT (List Token) (Except (List Token))

namespace Parser

variable {α β : Type}

/-- The next token, which stays. -/
def peek : Parser Token := fun tokens =>
  match tokens with
  | [] => .error []
  | token :: rest => .ok (token, token :: rest)

/-- The next token, if it is of a kind that selects something. -/
def leaf (select : Token.Kind → Option α) : Parser (Leaf α) := fun tokens =>
  match tokens with
  | [] => .error []
  | token :: rest =>
    match select token.kind with
    | some kind => .ok (⟨token, kind⟩, rest)
    | none => .error (token :: rest)

/-- The next token, if it has the given kind. -/
def token (kind : Token.Kind) : Parser Token := fun tokens =>
  match tokens with
  | [] => .error []
  | token :: rest => if token.kind = kind then .ok (token, rest) else .error (token :: rest)

/-! ## What is left of the tokens -/

def Keeps (p : Parser α) : Prop :=
  ∀ tokens node rest, p tokens = .ok (node, rest) → rest.length ≤ tokens.length

def Consumes (p : Parser α) : Prop :=
  ∀ tokens node rest, p tokens = .ok (node, rest) → rest.length < tokens.length

theorem Consumes.keeps {p : Parser α} (h : Consumes p) : Keeps p :=
  fun tokens node rest hp => Nat.le_of_lt (h tokens node rest hp)

/-- A sequence of two readers succeeds exactly when both do, one behind the other. -/
theorem bind_eq_ok {p : Parser α} {q : α → Parser β} {tokens rest : List Token} {node : β} :
    (p >>= q) tokens = .ok (node, rest) ↔
      ∃ first middle, p tokens = .ok (first, middle) ∧ q first middle = .ok (node, rest) := by
  show (p tokens).bind (fun r => q r.1 r.2) = _ ↔ _
  cases p tokens with
  | error left => simp [Except.bind]
  | ok r =>
    obtain ⟨first, middle⟩ := r
    simp [Except.bind, and_assoc]

theorem pure_eq_ok {a node : α} {tokens rest : List Token} :
    (pure a : Parser α) tokens = .ok (node, rest) ↔ a = node ∧ tokens = rest := by
  show Except.ok (a, tokens) = _ ↔ _
  simp

theorem keeps_pure (a : α) : Keeps (pure a : Parser α) := fun _ _ _ h =>
  Nat.le_of_eq (congrArg List.length (pure_eq_ok.1 h).2.symm)

theorem Keeps.bind {p : Parser α} {q : α → Parser β} (hp : Keeps p) (hq : ∀ a, Keeps (q a)) :
    Keeps (p >>= q) := fun tokens node rest h => by
  obtain ⟨first, middle, h₁, h₂⟩ := bind_eq_ok.1 h
  exact Nat.le_trans (hq _ _ _ _ h₂) (hp _ _ _ h₁)

theorem Consumes.bind {p : Parser α} {q : α → Parser β} (hp : Consumes p) (hq : ∀ a, Keeps (q a)) :
    Consumes (p >>= q) := fun tokens node rest h => by
  obtain ⟨first, middle, h₁, h₂⟩ := bind_eq_ok.1 h
  exact Nat.lt_of_le_of_lt (hq _ _ _ _ h₂) (hp _ _ _ h₁)

theorem Keeps.bind_consumes {p : Parser α} {q : α → Parser β} (hp : Keeps p)
    (hq : ∀ a, Consumes (q a)) : Consumes (p >>= q) := fun tokens node rest h => by
  obtain ⟨first, middle, h₁, h₂⟩ := bind_eq_ok.1 h
  exact Nat.lt_of_lt_of_le (hq _ _ _ _ h₂) (hp _ _ _ h₁)

theorem keeps_peek : Keeps peek := fun tokens node rest h => by
  cases tokens with
  | nil => exact nomatch h
  | cons token tokens =>
    exact Nat.le_of_eq (congrArg List.length (Prod.mk.inj (Except.ok.inj h)).2.symm)

theorem consumes_leaf (select : Token.Kind → Option α) : Consumes (leaf select) :=
  fun tokens node rest h => by
    cases tokens with
    | nil => exact nomatch h
    | cons token tokens =>
      simp only [leaf] at h
      split at h
      · rw [← (Prod.mk.inj (Except.ok.inj h)).2]
        exact Nat.lt_succ_self _
      · exact nomatch h

theorem consumes_token (kind : Token.Kind) : Consumes (token kind) := fun tokens node rest h => by
  cases tokens with
  | nil => exact nomatch h
  | cons token tokens =>
    simp only [Parser.token] at h
    split at h
    · rw [← (Prod.mk.inj (Except.ok.inj h)).2]
      exact Nat.lt_succ_self _
    · exact nomatch h

/-! ## Loops -/

/-- One item, and another one behind every separator that follows. -/
def separated (separator : Token.Kind) (item : Parser α) (keeps : Keeps item) : Parser (List α) :=
  fun tokens =>
    match _h : item tokens with
    | .error left => .error left
    | .ok (first, []) => .ok ([first], [])
    | .ok (first, next :: rest) =>
      if next.kind = separator then
        match separated separator item keeps rest with
        | .error left => .error left
        | .ok (items, rest) => .ok (first :: items, rest)
      else .ok ([first], next :: rest)
termination_by tokens => tokens.length
decreasing_by exact keeps _ _ _ _h

/-- One item, and further items until a token of the closing kind is next. -/
def repeated (close : Token.Kind) (item : Parser α) (consumes : Consumes item) :
    Parser (List α) := fun tokens =>
  match _h : item tokens with
  | .error left => .error left
  | .ok (_, []) => .error []
  | .ok (first, next :: rest) =>
    if next.kind = close then .ok ([first], next :: rest)
    else
      match repeated close item consumes (next :: rest) with
      | .error left => .error left
      | .ok (items, rest) => .ok (first :: items, rest)
termination_by tokens => tokens.length
decreasing_by exact consumes _ _ _ _h

theorem consumes_separated (separator : Token.Kind) {item : Parser α} (h : Consumes item) :
    Consumes (separated separator item h.keeps) := by
  intro tokens
  induction tokens using (measure List.length).wf.induction with
  | _ tokens ih =>
    intro items rest hrest
    rw [separated] at hrest
    split at hrest
    · exact nomatch hrest
    · next hitem =>
      rw [← (Prod.mk.inj (Except.ok.inj hrest)).2]
      exact h _ _ _ hitem
    · next next middle hitem =>
      have hlt := h _ _ _ hitem
      simp only [List.length_cons] at hlt
      split at hrest
      · split at hrest
        · exact nomatch hrest
        · next hmore =>
          have hmiddle : middle.length < tokens.length := by omega
          have := ih middle hmiddle _ _ hmore
          rw [← (Prod.mk.inj (Except.ok.inj hrest)).2]
          omega
      · rw [← (Prod.mk.inj (Except.ok.inj hrest)).2]
        exact h _ _ _ hitem

/-! ## The rules -/

def shape : Parser (Leaf Shape.Kind) :=
  leaf fun kind => match kind with
    | .shape kind => some kind
    | _ => none

def attr : Parser (Leaf Attribute) :=
  leaf fun kind => match kind with
    | .attr attr => some attr
    | _ => none

def area : Parser (Leaf Area) :=
  leaf fun kind => match kind with
    | .area area => some area
    | _ => none

def color : Parser (Leaf Color) :=
  leaf fun kind => match kind with
    | .color color => some color
    | _ => none

/-- `in front of` or `behind`, at its first word. -/
def placement : Parser (Leaf Placement) := do
  if (← peek).kind = .behind then
    return ⟨← token .behind, .behind⟩
  else
    let first ← token .within
    let _ ← token .front
    let _ ← token .of
    return ⟨first, .front⟩

def object : Parser Object := do
  if (← peek).kind = .name then
    let name ← token .name
    return .shape name name
  else
    return .canvas (← token .canvas)

def target : Parser Target := do
  let first ← peek
  if first.kind = .its then
    let _ ← token .its
    return .implicit first (← attr)
  else
    let attr ← attr
    let _ ← token .of
    match (← peek).kind with
    | .its =>
      let _ ← token .its
      return .implicitArea first attr (← area)
    | .area _ =>
      let area ← area
      let _ ← token .of
      return .area first attr area (← object)
    | _ => return .plain first attr (← object)

def literal : Parser Literal := do
  let first ← peek
  match first.kind with
  | .number => return .number first (← token .number)
  | .leftParen =>
    let _ ← token .leftParen
    let numbers ← separated .comma (token .number) (consumes_token .number).keeps
    let _ ← token .rightParen
    return .tuple first numbers
  | _ => return .color first (← color)

/-- What follows the name and the `is` of a clause about a shape. -/
def predicate (name : Token) : Parser Clause := do
  if (← peek).kind.startsPlacement then
    let placement ← placement
    return .place name name placement (← token .name)
  else
    return .declare name name (← shape)

def clause : Parser Clause := do
  let first ← peek
  if first.kind = .name then
    let name ← token .name
    let _ ← token .is
    predicate name
  else
    let target ← target
    let _ ← token .is
    return .assign first target (← literal)

theorem consumes_placement : Consumes placement :=
  keeps_peek.bind_consumes fun first => by
    split
    · exact (consumes_token _).bind fun _ => keeps_pure _
    · exact (consumes_token _).bind fun _ => (consumes_token _).keeps.bind fun _ =>
        (consumes_token _).keeps.bind fun _ => keeps_pure _

theorem consumes_object : Consumes object :=
  keeps_peek.bind_consumes fun first => by
    split
    · exact (consumes_token _).bind fun _ => keeps_pure _
    · exact (consumes_token _).bind fun _ => keeps_pure _

theorem consumes_target : Consumes target :=
  keeps_peek.bind_consumes fun first => by
    split
    · exact (consumes_token _).bind fun _ => (consumes_leaf _).keeps.bind fun _ => keeps_pure _
    · refine (consumes_leaf _).bind fun attr => (consumes_token _).keeps.bind fun _ =>
        keeps_peek.bind fun next => ?_
      split
      · exact (consumes_token _).keeps.bind fun _ => (consumes_leaf _).keeps.bind fun _ =>
          keeps_pure _
      · exact (consumes_leaf _).keeps.bind fun _ => (consumes_token _).keeps.bind fun _ =>
          consumes_object.keeps.bind fun _ => keeps_pure _
      · exact consumes_object.keeps.bind fun _ => keeps_pure _

theorem consumes_literal : Consumes literal :=
  keeps_peek.bind_consumes fun first => by
    split
    · exact (consumes_token _).bind fun _ => keeps_pure _
    · exact (consumes_token _).bind fun _ =>
        (consumes_separated _ (consumes_token _)).keeps.bind fun _ =>
          (consumes_token _).keeps.bind fun _ => keeps_pure _
    · exact (consumes_leaf _).bind fun _ => keeps_pure _

theorem consumes_predicate (name : Token) : Consumes (predicate name) :=
  keeps_peek.bind_consumes fun first => by
    split
    · exact consumes_placement.bind fun _ => (consumes_token _).keeps.bind fun _ => keeps_pure _
    · exact (consumes_leaf _).bind fun _ => keeps_pure _

theorem consumes_clause : Consumes clause :=
  keeps_peek.bind_consumes fun first => by
    split
    · exact (consumes_token _).bind fun _ => (consumes_token _).keeps.bind fun _ =>
        (consumes_predicate _).keeps
    · exact consumes_target.bind fun _ => (consumes_token _).keeps.bind fun _ =>
        consumes_literal.keeps.bind fun _ => keeps_pure _

def sentence : Parser Sentence := do
  let first ← peek
  let clauses ← separated .and clause consumes_clause.keeps
  let _ ← token .period
  return ⟨first, clauses⟩

theorem consumes_sentence : Consumes sentence :=
  keeps_peek.bind_consumes fun _ => (consumes_separated _ consumes_clause).bind fun _ =>
    (consumes_token _).keeps.bind fun _ => keeps_pure _

/-- Sentences up to an end marker, at least one. -/
def program : Parser Program := do
  let first ← peek
  let sentences ← repeated .endOfInput sentence consumes_sentence
  let _ ← token .endOfInput
  return ⟨first, sentences⟩

end Parser

namespace Program

/-- The marker behind the last token, one line below it. -/
def endMarker (tokens : List Token) : Token where
  kind := .endOfInput
  text := ""
  line :=
    match tokens.getLast? with
    | some last => last.line + 1
    | none => 1

/-- The fault at a token that no program continues with. -/
def faultAt (token : Token) : Fault :=
  if token.kind = .endOfInput then ⟨.unexpectedEnd, token.line⟩
  else ⟨.unexpectedToken token.text, token.line⟩

/-- The tree of a token list. -/
def parse (tokens : List Token) : Except Fault Program :=
  let marker := endMarker tokens
  match Parser.program (tokens ++ [marker]) with
  | .ok (program, _) => .ok program
  | .error left => .error (faultAt (left.headD marker))

end Program

end Tableau
