import Tableau.Fault
import Tableau.Token

/-!
# Scanning

`Token.scan` turns program text into tokens. At each place the kinds are tried in order, and the
first one whose pattern covers a non-empty start of the remaining text gives the next token. Blank
characters become no token; a line feed starts a new line. A place where no kind applies is a fault.

The scan takes the order of the kinds as an argument, and `Source.tokens` passes
`Token.Kind.priority`. Each step removes the text of its token (`Pattern.lexeme_isPrefix`), which is
why the scan ends.
-/

namespace Tableau

/-- The blank characters: space, tab, line feed, carriage return, vertical tab and form feed. -/
def isBlankCharacter (c : Char) : Bool :=
  c ∈ [' ', '\t', '\n', '\r', '\x0b', '\x0c']

/-- The characters that an identifier can start with. Letters are those of ASCII. -/
def isNameStart (c : Char) : Bool := c.isAlpha || c = '_'

def isNameCharacter (c : Char) : Bool := c.isAlphanum || c = '_'

/-- Whether a text starts with a lower-case word, when the letter case of the text is ignored. -/
def startsWithWord (word text : List Char) : Bool :=
  (text.take word.length).map Char.toLower = word

namespace Pattern

/-- The start of a text that a pattern covers, or nothing. -/
def lexeme : Pattern → List Char → List Char
  | keyword word, text => if startsWithWord word.toList text then text.take word.toList.length else []
  | digits, text => text.takeWhile Char.isDigit
  | identifier, text =>
    match text with
    | c :: _ => if isNameStart c then text.takeWhile isNameCharacter else []
    | [] => []
  | whitespace, text =>
    match text with
    | c :: _ => if isBlankCharacter c then [c] else []
    | [] => []

/-- What a pattern covers is a start of the text. -/
theorem lexeme_isPrefix (pattern : Pattern) (text : List Char) : pattern.lexeme text <+: text := by
  cases pattern with
  | keyword word =>
    simp only [lexeme]
    split
    · exact List.take_prefix _ _
    · exact List.nil_prefix
  | digits => exact List.takeWhile_prefix _
  | identifier =>
    cases text with
    | nil => exact List.nil_prefix
    | cons c rest =>
      simp only [lexeme]
      split
      · exact List.takeWhile_prefix _
      · exact List.nil_prefix
  | whitespace =>
    cases text with
    | nil => exact List.nil_prefix
    | cons c rest =>
      simp only [lexeme]
      split
      · exact ⟨rest, rfl⟩
      · exact List.nil_prefix

end Pattern

namespace Token

/-- The start of a text that a kind covers, if that is not empty. -/
def Kind.lexeme? (kind : Kind) (text : List Char) : Option (List Char) :=
  match kind.pattern with
  | none => none
  | some pattern =>
    match pattern.lexeme text with
    | [] => none
    | c :: word => some (c :: word)

/-- The first kind of an order that covers something, and what it covers. -/
def firstMatch (order : List Kind) (text : List Char) : Option (Kind × List Char) :=
  order.findSome? fun kind => (kind.lexeme? text).map (kind, ·)

theorem Kind.lexeme?_ne_nil {kind : Kind} {text word : List Char}
    (h : kind.lexeme? text = some word) : word ≠ [] := by
  unfold Kind.lexeme? at h
  split at h
  · exact absurd h (by simp)
  · split at h
    · exact absurd h (by simp)
    · rw [← Option.some.inj h]
      simp

theorem firstMatch_ne_nil {order : List Kind} {text word : List Char} {kind : Kind}
    (h : firstMatch order text = some (kind, word)) : word ≠ [] := by
  obtain ⟨k, -, hk⟩ := List.exists_of_findSome?_eq_some h
  obtain ⟨w, hw, heq⟩ := Option.map_eq_some_iff.1 hk
  rw [← (Prod.mk.inj heq).2]
  exact Kind.lexeme?_ne_nil hw

/-- The tokens of a text whose first character stands on the given line. -/
def scan (order : List Kind) (line : Nat) (text : List Char) : Except Fault (List Token) :=
  match text with
  | [] => .ok []
  | c :: rest =>
    match h : firstMatch order (c :: rest) with
    | none => .error ⟨.unknownCharacter c, line⟩
    | some (.blank, word) =>
      scan order (if word = ['\n'] then line + 1 else line) ((c :: rest).drop word.length)
    | some (kind, word) =>
      match scan order line ((c :: rest).drop word.length) with
      | .error fault => .error fault
      | .ok tokens => .ok (⟨kind, String.ofList word, line⟩ :: tokens)
termination_by text.length
decreasing_by
  all_goals
    have := List.length_pos_iff.2 (firstMatch_ne_nil h)
    simp only [List.length_drop, List.length_cons]
    omega

end Token

end Tableau
