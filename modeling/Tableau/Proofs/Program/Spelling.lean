import Tableau.Program

/-!
# How trees are spelled

`program.SpelledBy tokens` says that the tokens, from the first to the last, are a spelling of the
tree: they have the kinds that the constructors ask for, names, numbers and leaves are the tokens
themselves, and every node has the first of its own tokens for its start. There is one relation per
rule of the grammar, and each constructor is one alternative of its rule. A spelling starts at the
start token of its node.
-/

namespace Tableau

/-! ## Spellings -/

/-- Items with a token of a kind between any two, at least one item. -/
inductive Separated {α : Type} (separator : Token.Kind) (spelled : α → List Token → Prop) :
    List α → List Token → Prop
  | one {item : α} {tokens : List Token} :
    spelled item tokens → Separated separator spelled [item] tokens
  | more {item : α} {items : List α} {tokens others : List Token} {between : Token} :
    spelled item tokens → between.kind = separator → Separated separator spelled items others →
      Separated separator spelled (item :: items) (tokens ++ between :: others)

/-- Items one behind the other, at least one. -/
inductive Repeated {α : Type} (spelled : α → List Token → Prop) : List α → List Token → Prop
  | one {item : α} {tokens : List Token} : spelled item tokens → Repeated spelled [item] tokens
  | more {item : α} {items : List α} {tokens others : List Token} :
    spelled item tokens → Repeated spelled items others →
      Repeated spelled (item :: items) (tokens ++ others)

/-- The first token of items is the first token of the first item. -/
theorem Repeated.head {α : Type} {spelled : α → List Token → Prop} {good : Token → Prop}
    (hstart : ∀ node used, spelled node used → ∃ first others, used = first :: others ∧ good first)
    {items : List α} {used : List Token} (h : Repeated spelled items used) :
    ∃ first others, used = first :: others ∧ good first := by
  cases h with
  | one hnode => exact hstart _ _ hnode
  | more hnode _ =>
    obtain ⟨first, others, rfl, hfirst⟩ := hstart _ _ hnode
    exact ⟨first, _, rfl, hfirst⟩

/-- A token of a kind spells itself. -/
def Token.SpelledBy (kind : Token.Kind) (token : Token) (tokens : List Token) : Prop :=
  tokens = [token] ∧ token.kind = kind

inductive Placement.SpelledBy : Leaf Placement → List Token → Prop
  | front {within front of : Token} :
    within.kind = .within → front.kind = .front → of.kind = .of →
      SpelledBy ⟨within, .front⟩ [within, front, of]
  | behind {behind : Token} : behind.kind = .behind → SpelledBy ⟨behind, .behind⟩ [behind]

inductive Object.SpelledBy : Object → List Token → Prop
  | shape {name : Token} : name.kind = .name → SpelledBy (.shape name name) [name]
  | canvas {token : Token} : token.kind = .canvas → SpelledBy (.canvas token) [token]

inductive Target.SpelledBy : Target → List Token → Prop
  | implicit {its word : Token} {attr : Attribute} :
    its.kind = .its → word.kind = .attr attr →
      SpelledBy (.implicit its ⟨word, attr⟩) [its, word]
  | implicitArea {word of its part : Token} {attr : Attribute} {area : Area} :
    word.kind = .attr attr → of.kind = .of → its.kind = .its → part.kind = .area area →
      SpelledBy (.implicitArea word ⟨word, attr⟩ ⟨part, area⟩) [word, of, its, part]
  | area {word of part of' : Token} {attr : Attribute} {area : Area} {object : Object}
      {tokens : List Token} :
    word.kind = .attr attr → of.kind = .of → part.kind = .area area → of'.kind = .of →
      object.SpelledBy tokens →
      SpelledBy (.area word ⟨word, attr⟩ ⟨part, area⟩ object)
        (word :: of :: part :: of' :: tokens)
  | plain {word of : Token} {attr : Attribute} {object : Object} {tokens : List Token} :
    word.kind = .attr attr → of.kind = .of → object.SpelledBy tokens →
      SpelledBy (.plain word ⟨word, attr⟩ object) (word :: of :: tokens)

/-- A placement starts at the token of its word. -/
theorem Placement.SpelledBy.head {word : Leaf Placement} {tokens : List Token}
    (h : Placement.SpelledBy word tokens) :
    ∃ others, tokens = word.token :: others ∧ word.token.kind.startsPlacement = true := by
  cases h with
  | front hwithin _ _ => exact ⟨_, rfl, by rw [hwithin]; rfl⟩
  | behind hbehind => exact ⟨_, rfl, by rw [hbehind]; rfl⟩

/-- A target starts at its start token, and that is no name. -/
theorem Target.SpelledBy.head {target : Target} {tokens : List Token}
    (h : target.SpelledBy tokens) :
    ∃ others, tokens = target.token :: others ∧ target.token.kind ≠ .name := by
  cases h with
  | implicit hits _ => exact ⟨_, rfl, by simp [Target.token, hits]⟩
  | implicitArea hattr _ _ _ => exact ⟨_, rfl, by simp [Target.token, hattr]⟩
  | area hattr _ _ _ _ => exact ⟨_, rfl, by simp [Target.token, hattr]⟩
  | plain hattr _ _ => exact ⟨_, rfl, by simp [Target.token, hattr]⟩

inductive Literal.SpelledBy : Literal → List Token → Prop
  | number {number : Token} : number.kind = .number → SpelledBy (.number number number) [number]
  | tuple {left right : Token} {numbers tokens : List Token} :
    left.kind = .leftParen → Separated .comma (Token.SpelledBy .number) numbers tokens →
      right.kind = .rightParen → SpelledBy (.tuple left numbers) (left :: tokens ++ [right])
  | color {word : Token} {color : Color} :
    word.kind = .color color → SpelledBy (.color word ⟨word, color⟩) [word]

/-- An object starts at its start token. -/
theorem Object.SpelledBy.head {object : Object} {tokens : List Token}
    (h : object.SpelledBy tokens) : ∃ others, tokens = object.token :: others := by
  cases h with
  | shape | canvas => exact ⟨_, rfl⟩

/-- A literal starts at its start token. -/
theorem Literal.SpelledBy.head {literal : Literal} {tokens : List Token}
    (h : literal.SpelledBy tokens) : ∃ others, tokens = literal.token :: others := by
  cases h with
  | number | tuple | color => exact ⟨_, rfl⟩

inductive Clause.SpelledBy : Clause → List Token → Prop
  | declare {name is word : Token} {kind : Shape.Kind} :
    name.kind = .name → is.kind = .is → word.kind = .shape kind →
      SpelledBy (.declare name name ⟨word, kind⟩) [name, is, word]
  | place {name is second : Token} {placement : Leaf Placement} {tokens : List Token} :
    name.kind = .name → is.kind = .is → Placement.SpelledBy placement tokens →
      second.kind = .name →
      SpelledBy (.place name name placement second) (name :: is :: tokens ++ [second])
  | assign {first is : Token} {target : Target} {value : Literal}
      {tokens others : List Token} :
    target.SpelledBy (first :: tokens) → is.kind = .is → value.SpelledBy others →
      SpelledBy (.assign first target value) (first :: tokens ++ is :: others)

inductive Sentence.SpelledBy : Sentence → List Token → Prop
  | intro {first period : Token} {clauses : List Clause} {tokens : List Token} :
    Separated .and Clause.SpelledBy clauses (first :: tokens) → period.kind = .period →
      SpelledBy ⟨first, clauses⟩ (first :: tokens ++ [period])

inductive Program.SpelledBy : Program → List Token → Prop
  | intro {first : Token} {sentences : List Sentence} {tokens : List Token} :
    Repeated Sentence.SpelledBy sentences (first :: tokens) →
      SpelledBy ⟨first, sentences⟩ (first :: tokens)

/-- A clause starts at its start token. -/
theorem Clause.SpelledBy.head {clause : Clause} {tokens : List Token}
    (h : clause.SpelledBy tokens) : ∃ others, tokens = clause.token :: others := by
  cases h with
  | declare | place | assign => exact ⟨_, rfl⟩

theorem exists_cons_of_clauses {separator : Token.Kind} {clauses : List Clause}
    {tokens : List Token} (h : Separated separator Clause.SpelledBy clauses tokens) :
    ∃ first others, tokens = first :: others := by
  cases h with
  | one hclause =>
    obtain ⟨others, rfl⟩ := hclause.head
    exact ⟨_, _, rfl⟩
  | more hclause =>
    obtain ⟨others, rfl⟩ := hclause.head
    exact ⟨_, _, rfl⟩

/-- A sentence starts at its start token. -/
theorem Sentence.SpelledBy.head {sentence : Sentence} {tokens : List Token}
    (h : sentence.SpelledBy tokens) : ∃ others, tokens = sentence.token :: others := by
  cases h with
  | intro => exact ⟨_, rfl⟩

end Tableau
