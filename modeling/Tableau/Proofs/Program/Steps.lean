import Tableau.Program.Parser

/-!
# Readers step by step

What a reader does next, once it is known what its first part found: the rest of a sequence, the
token of a kind, and one turn of each of the two loops. With these equations a rule of the grammar
is followed along one of its branches.
-/

namespace Tableau.Parser

variable {α β : Type}

/-! ## One reader behind the other -/

section Bind

variable {p : Parser α} {q : α → Parser β} {tokens left rest : List Token} {node : α}

theorem bind_of_error (h : p tokens = .error left) : (p >>= q) tokens = .error left := by
  show (p tokens).bind (fun found => q found.1 found.2) = _
  rw [h]
  rfl

theorem bind_of_ok (h : p tokens = .ok (node, rest)) : (p >>= q) tokens = q node rest := by
  show (p tokens).bind (fun found => q found.1 found.2) = _
  rw [h]
  rfl

/-- A sequence of two readers fails where the first one fails, or else the second one. -/
theorem bind_eq_error : (p >>= q) tokens = .error left ↔
    p tokens = .error left ∨
      ∃ node middle, p tokens = .ok (node, middle) ∧ q node middle = .error left := by
  rcases hread : p tokens with left' | ⟨node, middle⟩
  · rw [bind_of_error hread]
    simp
  · rw [bind_of_ok hread]
    simp [and_assoc]

theorem peek_bind (q : Token → Parser β) (first : Token) (others : List Token) :
    (peek >>= q) (first :: others) = q first (first :: others) := rfl

end Bind

theorem token_of_kind {kind : Token.Kind} {next : Token} {rest : List Token}
    (h : next.kind = kind) : token kind (next :: rest) = .ok (next, rest) := if_pos h

theorem token_of_ne {kind : Token.Kind} {next : Token} {rest : List Token}
    (h : next.kind ≠ kind) : token kind (next :: rest) = .error (next :: rest) := if_neg h

/-! ## Loops, one turn at a time -/

section Turns

variable {separator close : Token.Kind} {item : Parser α} {keeps : Keeps item}
  {consumes : Consumes item} {tokens rest left : List Token} {first : α} {next : Token}

theorem separated_of_error (h : item tokens = .error left) :
    separated separator item keeps tokens = .error left := by
  rw [separated]
  split <;> simp_all

theorem separated_of_end (h : item tokens = .ok (first, [])) :
    separated separator item keeps tokens = .ok ([first], []) := by
  rw [separated]
  split <;> simp_all

theorem separated_of_separator (h : item tokens = .ok (first, next :: rest))
    (hnext : next.kind = separator) :
    separated separator item keeps tokens =
      (separated separator item keeps rest).map fun found => (first :: found.1, found.2) := by
  rw [separated]
  split
  · simp_all
  · simp_all
  · next hfound =>
    rw [h] at hfound
    cases hfound
    rw [if_pos hnext]
    cases separated separator item keeps rest <;> rfl

theorem separated_of_other (h : item tokens = .ok (first, next :: rest))
    (hnext : next.kind ≠ separator) :
    separated separator item keeps tokens = .ok ([first], next :: rest) := by
  rw [separated]
  split <;> simp_all

theorem repeated_of_error (h : item tokens = .error left) :
    repeated close item consumes tokens = .error left := by
  rw [repeated]
  split <;> simp_all

theorem repeated_of_end (h : item tokens = .ok (first, [])) :
    repeated close item consumes tokens = .error [] := by
  rw [repeated]
  split <;> simp_all

theorem repeated_of_close (h : item tokens = .ok (first, next :: rest))
    (hnext : next.kind = close) :
    repeated close item consumes tokens = .ok ([first], next :: rest) := by
  rw [repeated]
  split <;> simp_all

theorem repeated_of_more (h : item tokens = .ok (first, next :: rest)) (hnext : next.kind ≠ close) :
    repeated close item consumes tokens =
      (repeated close item consumes (next :: rest)).map fun found =>
        (first :: found.1, found.2) := by
  rw [repeated]
  split
  · simp_all
  · simp_all
  · next hfound =>
    rw [h] at hfound
    cases hfound
    rw [if_neg hnext]
    cases repeated close item consumes (next :: rest) <;> rfl

end Turns

end Tableau.Parser
