import Tableau.Vocabulary

/-!
# Tokens

A token is a piece of program text together with its kind and its line. A kind is recognised by a
`Pattern`: a keyword in any letter case, a run of digits, an identifier, or one blank character.
`Token.Kind.priority` is the order in which the kinds are tried at a place of the text. Keywords
come before names, so a keyword is recognised also where it is only the start of a longer word:
`colorful` is the keyword `color` and then the name `ful`.
-/

namespace Tableau

/-- What a piece of program text is. -/
inductive Token.Kind
  | canvas
  | shape (kind : Shape.Kind)
  | color (color : Color)
  | area (area : Area)
  | attr (attr : Attribute)
  | of
  | is
  /-- The word `in`, which opens `in front of`. -/
  | within
  | its
  | and
  | front
  | behind
  | leftParen
  | rightParen
  | period
  | comma
  | number
  | name
  /-- A blank character. No token has this kind after scanning. -/
  | blank
  /-- The marker behind the last token. No text has this kind. -/
  | endOfInput
deriving DecidableEq, Repr, Inhabited

/-- A piece of program text in its own letter case, its kind, and the line it stands on. -/
structure Token where
  kind : Token.Kind
  text : String
  line : Nat
deriving DecidableEq, Repr, Inhabited

/-- How a kind of token is recognised at the start of a text. -/
inductive Pattern
  /-- A fixed word, in any letter case. -/
  | keyword (word : String)
  /-- `[0-9]+` -/
  | digits
  /-- `[a-zA-Z_][a-zA-Z0-9_]*` -/
  | identifier
  /-- One blank character. -/
  | whitespace
deriving DecidableEq, Repr

namespace Token.Kind

/-- The kinds that can stand in a program, in the order in which they are tried. -/
def priority : List Kind :=
  [canvas, shape .circle, shape .square, shape .ellipse, shape .rectangle,
   color .red, color .blue, color .green, color .white, color .black,
   area .border, attr .position, attr .size, attr .color,
   of, is, within, its, and, front, behind,
   leftParen, rightParen, period, comma, number, name, blank]

def all : List Kind := priority ++ [endOfInput]

/-- The pattern of a kind. The marker has none. -/
def pattern : Kind → Option Pattern
  | canvas => some (.keyword "canvas")
  | shape kind => some (.keyword kind.word)
  | color c => some (.keyword c.word)
  | area a => some (.keyword a.word)
  | attr a => some (.keyword a.word)
  | of => some (.keyword "of")
  | is => some (.keyword "is")
  | within => some (.keyword "in")
  | its => some (.keyword "its")
  | and => some (.keyword "and")
  | front => some (.keyword "front")
  | behind => some (.keyword "behind")
  | leftParen => some (.keyword "(")
  | rightParen => some (.keyword ")")
  | period => some (.keyword ".")
  | comma => some (.keyword ",")
  | number => some .digits
  | name => some .identifier
  | blank => some .whitespace
  | endOfInput => none

def keyword? (kind : Kind) : Option String :=
  match kind.pattern with
  | some (.keyword word) => some word
  | _ => none

/-- Whether the kind can be the first word of a placement. -/
def startsPlacement : Kind → Bool
  | within | behind => true
  | _ => false

def label : Kind → String
  | canvas => "Canvas"
  | shape kind => kind.label
  | color c => c.label
  | area a => a.label
  | attr a => a.label
  | of => "Of"
  | is => "Is"
  | within => "In"
  | its => "Its"
  | and => "And"
  | front => "Front"
  | behind => "Behind"
  | leftParen => "LParen"
  | rightParen => "RParen"
  | period => "Period"
  | comma => "Comma"
  | number => "Number"
  | name => "Name"
  | blank => "Ignore"
  | endOfInput => "EndOfInput"

def ofLabel? (label : String) : Option Kind := all.find? (·.label = label)

@[simp] theorem ofLabel?_label (kind : Kind) : ofLabel? kind.label = some kind := by
  cases kind with
  | shape k => cases k <;> decide
  | color c => cases c <;> decide
  | area a => cases a; decide
  | attr a => cases a <;> decide
  | _ => decide

/-- All kinds but the marker are tried. -/
theorem mem_priority_iff {kind : Kind} : kind ∈ priority ↔ kind.pattern ≠ none := by
  cases kind with
  | shape k => cases k <;> decide
  | color c => cases c <;> decide
  | area a => cases a; decide
  | attr a => cases a <;> decide
  | _ => decide

end Token.Kind

end Tableau
