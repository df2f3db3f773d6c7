import Tableau.Proofs.Painting.Index
import Tableau.Proofs.Painting.Numbers

/-!
# One value in several notations

A value can be written as a color, as a number or as a tuple, and a number with a plus sign and with
zeros in front. `program.normal` writes every value as a tuple, and every number that can be read in
the digits of its value. The lines stay, of the literals and of their numbers.

A literal has the value of its normal form and starts on the same line (`Literal.value_normal`). No
clause sees more of a literal than that, so the normal form of a program paints what the program
paints, or fails with the same fault (`Program.paint_normal`).
-/

namespace Tableau

open Numeral

/-! ## Normal forms -/

/-- The number in the digits of its value. What cannot be read stays as it is. -/
def Token.shortest (number : Token) : Token :=
  match read32? number.text with
  | some n => { number with text := n.toNat.repr }
  | none => number

/-- The tuple of the numbers that a literal is written in, or of the parts of its color. -/
def Literal.normal : Literal → Literal
  | number token digits => .tuple token [digits.shortest]
  | tuple token numbers => .tuple token (numbers.map Token.shortest)
  | color token word =>
    .tuple token (word.kind.value.numbers.map fun n => ⟨.number, n.toNat.repr, word.token.line⟩)

def Clause.normal : Clause → Clause
  | declare token name shape => .declare token name shape
  | place token first placement second => .place token first placement second
  | assign token target value => .assign token target value.normal

def Sentence.normal (sentence : Sentence) : Sentence :=
  ⟨sentence.token, sentence.clauses.map Clause.normal⟩

/-- The program with every value written as a tuple of numbers without sign and leading zeros. -/
def Program.normal (program : Program) : Program :=
  ⟨program.token, program.sentences.map Sentence.normal⟩

/-- A tuple, of whose numbers those that fit are written in the digits of their values. -/
def Literal.IsNormal (literal : Literal) : Prop :=
  ∃ token numbers, literal = .tuple token numbers ∧
    ∀ number ∈ numbers, ∀ n ≤ 4294967295, Denotes number.text.toList n → number.text = n.repr

/-! ## Literals -/

theorem Token.readNumber_shortest (number : Token) :
    number.shortest.readNumber = number.readNumber := by
  unfold shortest
  split
  · next n hn => simp only [readNumber, hn, read32?_repr]
  · rfl

/-- The digits of a value stand for that value and no other. -/
theorem repr_of_denotes {m : UInt32} {n : Nat} (h : Denotes m.toNat.repr.toList n) :
    m.toNat.repr = n.repr := by
  rw [h.unique (read32?_eq_some_iff.1 (read32?_repr m))]

/-- Of a number that fits, the digits of its value are left. -/
theorem Token.text_shortest {number : Token} {n : Nat} (hn : n ≤ 4294967295)
    (h : Denotes number.shortest.text.toList n) : number.shortest.text = n.repr := by
  unfold shortest at h ⊢
  split at h
  · exact repr_of_denotes h
  · next hnone =>
    obtain ⟨m, hm⟩ := fits_iff.1 ⟨n, hn, h⟩
    rw [hnone] at hm
    cases hm

theorem Token.mapM_readNumber_shortest (numbers : List Token) :
    (numbers.map shortest).mapM readNumber = numbers.mapM readNumber := by
  rw [List.mapM_map]
  exact congrArg numbers.mapM (funext readNumber_shortest)

namespace Literal

/-- A literal has the value of its normal form. -/
theorem value_normal (literal : Literal) : literal.normal.value = literal.value := by
  cases literal with
  | number token digits =>
    rw [value_of_numbers (.number token digits), normal, value_of_numbers (.tuple _ _)]
    exact congrArg (Except.map Value.mk) (Token.mapM_readNumber_shortest [digits])
  | tuple token numbers =>
    rw [value_of_numbers (.tuple token numbers), normal, value_of_numbers (.tuple _ _)]
    exact congrArg (Except.map Value.mk) (Token.mapM_readNumber_shortest numbers)
  | color token word =>
    rw [normal, value_of_numbers (.tuple _ _)]
    exact congrArg (Except.map Value.mk) (Token.mapM_readNumber_repr _ word.kind.value.numbers)

theorem token_normal (literal : Literal) : literal.normal.token = literal.token := by
  cases literal <;> rfl

theorem isNormal_normal (literal : Literal) : literal.normal.IsNormal := by
  cases literal with
  | number token digits =>
    refine ⟨token, _, rfl, List.forall_mem_singleton.2 ?_⟩
    exact fun n hn h => Token.text_shortest hn h
  | tuple token numbers =>
    refine ⟨token, _, rfl, List.forall_mem_map.2 ?_⟩
    exact fun number _ n hn h => Token.text_shortest hn h
  | color token word =>
    refine ⟨token, _, rfl, List.forall_mem_map.2 ?_⟩
    exact fun m _ n _ h => repr_of_denotes h

end Literal

/-! ## Paintings -/

namespace Painting

variable {painting : Painting}

theorem step_normal (clause : Clause) : painting.step clause.normal = painting.step clause := by
  cases clause with
  | declare | place => rfl
  | assign token target literal =>
    simp only [Clause.normal, step, assign, literal.value_normal, literal.token_normal]

theorem run_normal (clauses : List Clause) :
    painting.run (clauses.map Clause.normal) = painting.run clauses := by
  induction clauses generalizing painting with
  | nil => rfl
  | cons clause clauses ih =>
    rw [List.map_cons, run_cons, run_cons, step_normal]
    exact congrArg _ (funext fun next => ih)

end Painting

namespace Program

theorem clauses_normal (program : Program) :
    program.normal.clauses = program.clauses.map Clause.normal :=
  clauses_eq_map rfl fun _ => rfl

/-- **The notation of a value carries no meaning**: with every value written as a tuple, and every
number without sign and leading zeros, a program paints the same scene or fails with the same
fault. -/
theorem paint_normal (program : Program) :
    program.normal.paint = program.paint ∧
      ∀ token target literal, .assign token target literal ∈ program.normal.clauses →
        literal.IsNormal := by
  constructor
  · unfold paint
    rw [clauses_normal, Painting.run_normal]
  · intro token target literal hclause
    rw [clauses_normal] at hclause
    obtain ⟨clause, -, hnormal⟩ := List.mem_map.1 hclause
    cases clause with
    | declare | place => cases hnormal
    | assign _ _ written =>
      cases hnormal
      exact written.isNormal_normal

/-- A color, a number with a sign and one with zeros, in the canonical texts of the program and of its
normal form; and a number that is too large, which is at fault in both. -/
theorem paint_normal_of_color :
    let assign (attr : Attribute) (value : Literal) : Clause :=
      .assign default (.plain default ⟨default, attr⟩ (.canvas default)) value
    let number (text : String) (line : Nat) : Token := ⟨.number, text, line⟩
    let color := assign .color (.color default ⟨⟨.color .red, "red", 1⟩, .red⟩)
    let size := assign .size (.tuple default [number "007" 2, number "+12" 2])
    let tooLarge := assign .size (.number default (number "4294967296" 3))
    let program : Program := ⟨default, [⟨default, [color, size]⟩]⟩
    let faulty : Program := ⟨default, [⟨default, [color, tooLarge]⟩]⟩
    let canvas : Canvas := ⟨⟨[7, 12]⟩, ⟨[255, 0, 0]⟩, ⟨[0]⟩, .white⟩
    program.source = "color of canvas is red and size of canvas is (007, +12).\n" ∧
      program.normal.source = "color of canvas is (255, 0, 0) and size of canvas is (7, 12).\n" ∧
      program.normal.paint = program.paint ∧
      program.paint = .ok ⟨canvas, []⟩ ∧
      faulty.normal.paint = faulty.paint ∧
      faulty.paint = .error ⟨.numberTooLarge "4294967296", 3⟩ := by
  intro assign number color size tooLarge program faulty canvas
  have hpaint : program.paint = .ok ⟨canvas, []⟩ := Token.eq_ok_of_toOption (by decide +kernel)
  have hfaulty : faulty.paint = .error ⟨.numberTooLarge "4294967296", 3⟩ :=
    Token.eq_error_of_faultOf (by decide +kernel)
  exact ⟨by decide +kernel, by decide +kernel, (paint_normal program).1, hpaint,
    (paint_normal faulty).1, hfaulty⟩

end Program

end Tableau
