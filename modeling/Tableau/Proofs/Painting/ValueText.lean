import Tableau.Proofs.Painting.Describe

/-!
# The text of a value is a literal

A value is shown as the tuple of its numbers, as in the faults about dimensions. Programs write
values the same way: the text of a value scans to the words of the tuple, the tuple is read from
them, and its value is the value that was shown (`Value.text_reads_back`). Only the value without
numbers has no literal; its text is read up to the closing parenthesis.
-/

namespace Tableau

/-! ## Printed tuples -/

/-- Numbers with commas between them, printed on a line. -/
theorem Token.separated_printed (line : Nat) {numbers : List Token} (h : numbers ≠ []) :
    Separated .comma (Token.SpelledBy .number)
      (numbers.map fun number => (Piece.kept .number number).printed line)
      ((separatedBy .comma Token.asNumber numbers).map (Piece.printed line)) := by
  match numbers with
  | [] => exact absurd rfl h
  | number :: numbers =>
    induction numbers generalizing number with
    | nil => exact .one ⟨rfl, rfl⟩
    | cons next numbers ih =>
      rw [separatedBy_cons_cons, List.map_append, List.map_cons, List.map_cons]
      exact .more ⟨rfl, rfl⟩ rfl (ih next (List.cons_ne_nil _ _))

namespace Value

/-- The numbers of a value as they stand in its text on a line. -/
def numberTokens (line : Nat) (value : Value) : List Token :=
  value.numbers.map fun n => ⟨.number, n.toNat.repr, line⟩

/-- The words of the text of a value on a line. -/
def tokens (line : Nat) (value : Value) : List Token :=
  value.literal.yield.map (Piece.printed line)

theorem source_literal (value : Value) : value.literal.source = value.text := by
  rw [literal, Literal.source, text, List.map_map]
  rfl

/-- The text of a value scans to the words of a tuple. -/
theorem tokens_text {value : Value} (h : 1 ≤ value.dimension) :
    Source.tokens value.text = .ok (value.tokens 1) := by
  have hprints := Literal.prints (Value.full_literal h) value.printable_literal
  rw [source_literal] at hprints
  have hscan := hprints 1 [] Token.stops_nil
  rw [List.append_nil, Token.scan_nil] at hscan
  rw [Source.tokens, hscan]
  exact congrArg Except.ok (List.append_nil _)

/-- The words of a value spell a tuple. -/
theorem spelledBy_tokens {value : Value} (h : 1 ≤ value.dimension) (line : Nat) :
    (Literal.tuple ⟨.leftParen, "(", line⟩ (value.numberTokens line)).SpelledBy
      (value.tokens line) := by
  have hnumbers := Token.separated_printed line (Value.full_literal h)
  rw [List.map_map] at hnumbers
  rw [tokens, literal, Literal.yield, closedBy, List.map_cons, List.map_append]
  exact .tuple rfl hnumbers rfl

theorem value_numberTokens (value : Value) (line : Nat) (start : Token) :
    (Literal.tuple start (value.numberTokens line)).value = .ok value := by
  rw [Literal.value_of_numbers (.tuple _ _)]
  exact congrArg (Except.map Value.mk) (Token.mapM_readNumber_repr line value.numbers)

end Value

/-- A tuple starts with a number. -/
theorem Parser.literal_of_leftParen {left next : Token} (hleft : left.kind = .leftParen)
    (hnext : next.kind ≠ .number) (rest : List Token) :
    literal (left :: next :: rest) = .error (next :: rest) := by
  have hnumbers : separated .comma (token .number) (consumes_token .number).keeps (next :: rest) =
      .error (next :: rest) := separated_of_error (token_of_ne hnext)
  rw [literal, peek_bind, hleft]
  dsimp only
  rw [bind_of_ok (token_of_kind hleft), bind_of_error hnumbers]

/-- **The text of a value is program syntax for it**: the text of a value with at least one number
scans, all its tokens are read as one tuple, whatever comes behind them, and the value of the tuple
is that value again. The text of the value without numbers scans too, but no literal is read from
it, and the fault is at the closing parenthesis. -/
theorem Value.text_reads_back :
    (∀ value : Value, 1 ≤ value.dimension → ∃ tokens left numbers,
      Source.tokens value.text = .ok tokens ∧
      (∀ rest, Parser.literal (tokens ++ rest) = .ok (.tuple left numbers, rest)) ∧
      (Literal.tuple left numbers).value = .ok value) ∧
    ∃ left right, Value.text ⟨[]⟩ = "()" ∧ Source.tokens (Value.text ⟨[]⟩) = .ok [left, right] ∧
      right.kind = .rightParen ∧
      ∀ rest, Parser.literal ([left, right] ++ rest) = .error (right :: rest) := by
  constructor
  · intro value h
    refine ⟨value.tokens 1, ⟨.leftParen, "(", 1⟩, value.numberTokens 1, tokens_text h,
      fun rest => ?_, value.value_numberTokens 1 _⟩
    exact Parser.reads_literal.read (spelledBy_tokens h 1) rest
  · have hscan : Source.tokens (Value.text ⟨[]⟩) =
        .ok [⟨.leftParen, "(", 1⟩, ⟨.rightParen, ")", 1⟩] :=
      Token.eq_ok_of_toOption (by decide +kernel)
    exact ⟨_, _, rfl, hscan, rfl, Parser.literal_of_leftParen rfl (by decide)⟩

/-- The smallest and the largest number, with a comma behind the tuple that is not its own. -/
theorem Value.text_reads_back_of_largest_number :
    let value : Value := ⟨[0, 4294967295]⟩
    let comma : Token := ⟨.comma, ",", 1⟩
    1 ≤ value.dimension ∧ value.text = "(0, 4294967295)" ∧
      ∃ tokens left numbers, Source.tokens "(0, 4294967295)" = .ok tokens ∧
        Parser.literal (tokens ++ [comma]) = .ok (.tuple left numbers, [comma]) ∧
        (Literal.tuple left numbers).value = .ok value := by
  intro value comma
  have hdimension : 1 ≤ value.dimension := by decide
  have htext : value.text = "(0, 4294967295)" := by decide +kernel
  obtain ⟨tokens, left, numbers, hscan, hread, hvalue⟩ := text_reads_back.1 value hdimension
  rw [htext] at hscan
  exact ⟨hdimension, htext, tokens, left, numbers, hscan, hread [comma], hvalue⟩

end Tableau
