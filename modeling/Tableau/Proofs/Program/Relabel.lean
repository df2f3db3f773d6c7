import Tableau.Proofs.Program.Steps

/-!
# Parsing looks at kinds only

`program.map f` is a tree with `f` applied to every token in it. A reader `Mirrors` another one
under `f` if on the tokens that `f` gives it finds what the other one finds on the tokens
themselves, the tokens in it replaced by `f`, or fails where the other one fails. If `f` keeps the
kinds of tokens, every rule of the grammar mirrors itself (`mirrors_program`): of a token the parser
reads the kind and nothing else.
-/

namespace Tableau

/-! ## Trees with other tokens -/

def Leaf.map {α : Type} (f : Token → Token) (leaf : Leaf α) : Leaf α := ⟨f leaf.token, leaf.kind⟩

def Object.map (f : Token → Token) : Object → Object
  | shape token name => .shape (f token) (f name)
  | canvas token => .canvas (f token)

def Target.map (f : Token → Token) : Target → Target
  | plain token attr object => .plain (f token) (attr.map f) (object.map f)
  | area token attr part object => .area (f token) (attr.map f) (part.map f) (object.map f)
  | implicit token attr => .implicit (f token) (attr.map f)
  | implicitArea token attr part => .implicitArea (f token) (attr.map f) (part.map f)

def Literal.map (f : Token → Token) : Literal → Literal
  | number token digits => .number (f token) (f digits)
  | tuple token numbers => .tuple (f token) (numbers.map f)
  | color token word => .color (f token) (word.map f)

def Clause.map (f : Token → Token) : Clause → Clause
  | declare token name word => .declare (f token) (f name) (word.map f)
  | place token first placement second =>
    .place (f token) (f first) (placement.map f) (f second)
  | assign token target value => .assign (f token) (target.map f) (value.map f)

def Sentence.map (f : Token → Token) (sentence : Sentence) : Sentence :=
  ⟨f sentence.token, sentence.clauses.map (Clause.map f)⟩

/-- The tree with another token in the place of every token. -/
def Program.map (f : Token → Token) (program : Program) : Program :=
  ⟨f program.token, program.sentences.map (Sentence.map f)⟩

theorem Target.map_id (target : Target) : target.map id = target := by
  cases target with
  | plain _ _ object | area _ _ _ object => cases object <;> rfl
  | implicit | implicitArea => rfl

theorem Literal.map_id (literal : Literal) : literal.map id = literal := by
  cases literal with
  | number | color => rfl
  | tuple token numbers => exact congrArg (Literal.tuple token) numbers.map_id

theorem Clause.map_id (clause : Clause) : clause.map id = clause := by
  cases clause with
  | declare | place => rfl
  | assign token target value => rw [map, target.map_id, value.map_id, id]

theorem Program.clauses_map (f : Token → Token) (program : Program) :
    (program.map f).clauses = program.clauses.map (Clause.map f) := clauses_eq_map rfl fun _ => rfl

namespace Parser

variable {α β : Type} {f : Token → Token}

/-- What is found, or where it fails, with other tokens. -/
def carry (f : Token → Token) (image : α → α) :
    Except (List Token) (α × List Token) → Except (List Token) (α × List Token)
  | .ok (node, rest) => .ok (image node, rest.map f)
  | .error left => .error (left.map f)

/-- On other tokens the second reader finds what the first one finds, or fails where it fails. -/
def Mirrors (f : Token → Token) (image : α → α) (p q : Parser α) : Prop :=
  ∀ tokens, q (tokens.map f) = carry f image (p tokens)

/-! ## One reader behind the other -/

theorem Mirrors.bind {image : α → α} {image' : β → β} {p p' : Parser α} {q q' : α → Parser β}
    (hp : Mirrors f image p p') (hq : ∀ a, Mirrors f image' (q a) (q' (image a))) :
    Mirrors f image' (p >>= q) (p' >>= q') := by
  intro tokens
  show (p' (tokens.map f)).bind (fun r => q' r.1 r.2) = carry f image' ((p tokens).bind _)
  rw [hp]
  cases p tokens with
  | error left => rfl
  | ok found => exact hq found.1 found.2

theorem mirrors_pure {image : α → α} {a b : α} (h : image a = b) :
    Mirrors f image (pure a : Parser α) (pure b) := fun _ => by
  rw [← h]
  rfl

theorem mirrors_peek : Mirrors f f peek peek := fun tokens => by
  cases tokens <;> rfl

section Kinds

variable (hkind : ∀ token, (f token).kind = token.kind)

include hkind

theorem mirrors_token (kind : Token.Kind) : Mirrors f f (token kind) (token kind) := by
  intro tokens
  cases tokens with
  | nil => rfl
  | cons first rest =>
    simp only [List.map_cons, token, hkind]
    split <;> rfl

theorem mirrors_leaf (select : Token.Kind → Option α) :
    Mirrors f (Leaf.map f) (leaf select) (leaf select) := by
  intro tokens
  cases tokens with
  | nil => rfl
  | cons first rest =>
    simp only [List.map_cons, leaf, hkind]
    cases select first.kind <;> rfl

/-! ## Loops -/

theorem mirrors_separated (separator : Token.Kind) {item : Parser α} (keeps : Keeps item)
    {image : α → α} (hitem : Mirrors f image item item) :
    Mirrors f (List.map image) (separated separator item keeps)
      (separated separator item keeps) := by
  intro tokens
  induction tokens using (measure List.length).wf.induction with
  | _ tokens ih =>
    have himage := hitem tokens
    rcases hfound : item tokens with left | ⟨first, _ | ⟨next, rest⟩⟩ <;> rw [hfound] at himage
    · rw [separated_of_error hfound, separated_of_error himage]
      rfl
    · rw [separated_of_end hfound, separated_of_end himage]
      rfl
    · by_cases hnext : next.kind = separator
      · have hshort : rest.length < tokens.length := keeps _ _ _ hfound
        rw [separated_of_separator hfound hnext,
          separated_of_separator himage ((hkind next).trans hnext), ih rest hshort]
        cases separated separator item keeps rest <;> rfl
      · rw [separated_of_other hfound hnext,
          separated_of_other himage fun h => hnext ((hkind next).symm.trans h)]
        rfl

theorem mirrors_repeated (close : Token.Kind) {item : Parser α} (consumes : Consumes item)
    {image : α → α} (hitem : Mirrors f image item item) :
    Mirrors f (List.map image) (repeated close item consumes) (repeated close item consumes) := by
  intro tokens
  induction tokens using (measure List.length).wf.induction with
  | _ tokens ih =>
    have himage := hitem tokens
    rcases hfound : item tokens with left | ⟨first, _ | ⟨next, rest⟩⟩ <;> rw [hfound] at himage
    · rw [repeated_of_error hfound, repeated_of_error himage]
      rfl
    · rw [repeated_of_end hfound, repeated_of_end himage]
      rfl
    · by_cases hnext : next.kind = close
      · rw [repeated_of_close hfound hnext,
          repeated_of_close himage ((hkind next).trans hnext)]
        rfl
      · have hshort : (next :: rest).length < tokens.length := consumes _ _ _ hfound
        have hrest := ih (next :: rest) hshort
        rw [List.map_cons] at hrest
        rw [repeated_of_more hfound hnext,
          repeated_of_more himage fun h => hnext ((hkind next).symm.trans h), hrest]
        cases repeated close item consumes (next :: rest) <;> rfl

/-! ## The rules -/

theorem mirrors_placement : Mirrors f (Leaf.map f) placement placement := by
  refine mirrors_peek.bind fun first => ?_
  rw [hkind]
  split
  · exact (mirrors_token hkind _).bind fun word => mirrors_pure rfl
  · exact (mirrors_token hkind _).bind fun within => (mirrors_token hkind _).bind fun _ =>
      (mirrors_token hkind _).bind fun _ => mirrors_pure rfl

theorem mirrors_object : Mirrors f (Object.map f) object object := by
  refine mirrors_peek.bind fun first => ?_
  rw [hkind]
  split
  · exact (mirrors_token hkind _).bind fun name => mirrors_pure rfl
  · exact (mirrors_token hkind _).bind fun canvas => mirrors_pure rfl

theorem mirrors_target : Mirrors f (Target.map f) target target := by
  refine mirrors_peek.bind fun first => ?_
  rw [hkind]
  split
  · exact (mirrors_token hkind _).bind fun its => (mirrors_leaf hkind _).bind fun attr =>
      mirrors_pure rfl
  · refine (mirrors_leaf hkind _).bind fun attr => (mirrors_token hkind _).bind fun _ =>
      mirrors_peek.bind fun next => ?_
    rw [hkind]
    cases next.kind with
    | its =>
      exact (mirrors_token hkind _).bind fun _ => (mirrors_leaf hkind _).bind fun part =>
        mirrors_pure rfl
    | area =>
      exact (mirrors_leaf hkind _).bind fun part => (mirrors_token hkind _).bind fun _ =>
        (mirrors_object hkind).bind fun object => mirrors_pure rfl
    | _ => exact (mirrors_object hkind).bind fun object => mirrors_pure rfl

theorem mirrors_literal : Mirrors f (Literal.map f) literal literal := by
  refine mirrors_peek.bind fun first => ?_
  rw [hkind]
  cases first.kind with
  | number =>
    exact (mirrors_token hkind _).bind fun digits => mirrors_pure rfl
  | leftParen =>
    exact (mirrors_token hkind _).bind fun _ =>
      (mirrors_separated hkind _ _ (mirrors_token hkind _)).bind fun numbers =>
        (mirrors_token hkind _).bind fun _ => mirrors_pure rfl
  | _ => exact (mirrors_leaf hkind _).bind fun word => mirrors_pure rfl

theorem mirrors_predicate (name : Token) :
    Mirrors f (Clause.map f) (predicate name) (predicate (f name)) := by
  refine mirrors_peek.bind fun first => ?_
  rw [hkind]
  split
  · exact (mirrors_placement hkind).bind fun placement => (mirrors_token hkind _).bind fun second =>
      mirrors_pure rfl
  · exact (mirrors_leaf hkind _).bind fun word => mirrors_pure rfl

theorem mirrors_clause : Mirrors f (Clause.map f) clause clause := by
  refine mirrors_peek.bind fun first => ?_
  rw [hkind]
  split
  · exact (mirrors_token hkind _).bind fun name => (mirrors_token hkind _).bind fun _ =>
      mirrors_predicate hkind name
  · exact (mirrors_target hkind).bind fun target => (mirrors_token hkind _).bind fun _ =>
      (mirrors_literal hkind).bind fun value => mirrors_pure rfl

theorem mirrors_sentence : Mirrors f (Sentence.map f) sentence sentence :=
  mirrors_peek.bind fun _ => (mirrors_separated hkind _ _ (mirrors_clause hkind)).bind
    fun _ => (mirrors_token hkind _).bind fun _ => mirrors_pure rfl

/-- The parser mirrors itself under every map of tokens that keeps the kinds. -/
theorem mirrors_program : Mirrors f (Program.map f) program program :=
  mirrors_peek.bind fun _ => (mirrors_repeated hkind _ _ (mirrors_sentence hkind)).bind
    fun _ => (mirrors_token hkind _).bind fun _ => mirrors_pure rfl

end Kinds

end Parser

end Tableau
