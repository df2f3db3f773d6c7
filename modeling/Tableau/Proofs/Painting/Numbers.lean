import Mathlib.Data.List.Forall2
import Mathlib.Data.List.Induction
import Mathlib.Data.Nat.Digits.Defs
import Tableau.Painting
import Tableau.Proofs.Program.Printing
import Tableau.Proofs.Program.Spans

/-!
# The numbers of a program

A number is a non-empty run of digits, with at most one plus sign in front of it. It stands for a
number in base ten, however long the run is and whatever zeros it starts with (`Numeral.Denotes`).
It is read as that number if that is one of 32 bits, and is too large otherwise. Reading it digit by
digit, with numbers of 32 bits all the way, comes to the same: what is too large at one digit is too
large at the end (`Numeral.read32?_eq_foldlM`).

The numbers of a literal are read one after the other, up to the first that is not to be read
(`Token.mapM_readNumber_eq_error`). So a literal has a value exactly if all its numbers fit, and
that is what they stand for (`Literal.value_exact`).
-/

namespace Tableau

namespace Numeral

/-! ## What a numeral stands for -/

/-- `[0-9]+` -/
def IsDigits (text : List Char) : Prop := text ≠ [] ∧ ∀ c ∈ text, '0' ≤ c ∧ c ≤ '9'

/-- The number that digits stand for in base ten, where the last one counts the ones. -/
def decimal (digits : List Char) : Nat :=
  Nat.ofDigits 10 (digits.map fun c => c.toNat - '0'.toNat).reverse

/-- A text and the number that it stands for. -/
inductive Denotes : List Char → Nat → Prop
  | unsigned {digits : List Char} : IsDigits digits → Denotes digits (decimal digits)
  | signed {digits : List Char} : IsDigits digits → Denotes ('+' :: digits) (decimal digits)

/-- The text stands for a number of 32 bits. -/
def Fits (text : String) : Prop := ∃ n ≤ 4294967295, Denotes text.toList n

section Reading

variable {text : List Char}

theorem isNumeral_iff : isNumeral text = true ↔ IsDigits text := by
  have hdigit : ∀ c : Char, c.isDigit = true ↔ '0' ≤ c ∧ c ≤ '9' := fun c => by
    simp [Char.isDigit, Char.le_def]
  simp [isNumeral, IsDigits, hdigit]

/-- Reading from the first digit on comes to the sum of what the digits count. -/
theorem value_eq_decimal (digits : List Char) : value digits = decimal digits := by
  induction digits using List.reverseRecOn with
  | nil => rfl
  | append_singleton digits c ih =>
    have hvalue : value (digits ++ [c]) = 10 * value digits + (c.toNat - '0'.toNat) :=
      Nat.ofDigitChars_append 0
    have hdecimal : decimal (digits ++ [c]) = c.toNat - '0'.toNat + 10 * decimal digits := by
      unfold decimal
      rw [List.map_append, List.reverse_append]
      exact Nat.ofDigits_cons
    rw [hvalue, hdecimal, ih, Nat.add_comm]

theorem denotes_iff {n : Nat} : Denotes text n ↔ read? (dropPlus text) = some n := by
  have hread : ∀ {digits : List Char}, read? digits = some n ↔
      IsDigits digits ∧ n = decimal digits := fun {digits} => by
    rw [read?, ← isNumeral_iff, ← value_eq_decimal]
    split
    · next h => simp [h, eq_comm]
    · next h => simp [h]
  rw [hread]
  constructor
  · rintro (hdigits | hdigits)
    · rw [dropPlus_of_isNumeral (isNumeral_iff.2 hdigits)]
      exact ⟨hdigits, rfl⟩
    · exact ⟨hdigits, rfl⟩
  · unfold dropPlus
    split
    · rintro ⟨hdigits, rfl⟩
      exact .signed hdigits
    · rintro ⟨hdigits, rfl⟩
      exact .unsigned hdigits

/-- A text stands for one number only. -/
theorem Denotes.unique {m n : Nat} (hm : Denotes text m) (hn : Denotes text n) : m = n :=
  Option.some.inj ((denotes_iff.1 hm).symm.trans (denotes_iff.1 hn))

theorem word32?_eq_some_iff {m : Nat} {n : UInt32} : word32? m = some n ↔ m = n.toNat := by
  unfold word32?
  split
  · next h => rw [Option.some.injEq, ← UInt32.toNat_inj, UInt32.toNat_ofNatLT]
  · next h =>
    constructor
    · exact nofun
    · rintro rfl
      exact absurd n.toNat_lt h

/-- What is read is what the text stands for, and nothing is read that has no 32 bits. -/
theorem read32?_eq_some_iff {text : String} {n : UInt32} :
    read32? text = some n ↔ Denotes text.toList n.toNat := by
  unfold read32?
  rw [denotes_iff]
  constructor
  · intro h
    obtain ⟨m, hread, hm⟩ := Option.bind_eq_some_iff.1 h
    rw [hread, word32?_eq_some_iff.1 hm]
  · intro h
    rw [h]
    exact word32?_toNat n

theorem fits_iff {text : String} : Fits text ↔ ∃ n, read32? text = some n := by
  simp only [read32?_eq_some_iff]
  constructor
  · rintro ⟨n, hn, h⟩
    exact ⟨UInt32.ofNatLT n (Nat.lt_succ_of_le hn), by rwa [UInt32.toNat_ofNatLT]⟩
  · rintro ⟨n, h⟩
    exact ⟨n.toNat, Nat.le_of_lt_succ n.toNat_lt, h⟩

/-- Digits without a sign that do not fit stand for a number that is too large. -/
theorem lt_decimal_of_not_fits {text : String} (h : IsDigits text.toList) (hfits : ¬ Fits text) :
    4294967295 < decimal text.toList :=
  Nat.lt_of_not_le fun hle => hfits ⟨_, hle, .unsigned h⟩

/-! ## Digit by digit -/

/-- One more digit behind a number, if what then stands there is a number of 32 bits. -/
def push? (n : UInt32) (c : Char) : Option UInt32 :=
  if c.isDigit then word32? (10 * n.toNat + (c.toNat - '0'.toNat)) else none

/-- More digits make a number no smaller. -/
theorem le_ofDigitChars (digits : List Char) (n : Nat) : n ≤ Nat.ofDigitChars 10 digits n := by
  induction digits generalizing n with
  | nil => exact Nat.le_refl n
  | cons c digits ih =>
    rw [Nat.ofDigitChars_cons]
    have hrest := ih (10 * n + (c.toNat - '0'.toNat))
    omega

theorem foldlM_push? (digits : List Char) (n : UInt32) :
    digits.foldlM push? n =
      if digits.all Char.isDigit then word32? (Nat.ofDigitChars 10 digits n.toNat) else none := by
  induction digits generalizing n with
  | nil => exact (word32?_toNat n).symm
  | cons c digits ih =>
    rw [List.foldlM_cons, push?, List.all_cons, Nat.ofDigitChars_cons]
    by_cases hc : c.isDigit = true
    · rw [if_pos hc, hc, Bool.true_and]
      generalize 10 * n.toNat + (c.toNat - '0'.toNat) = m
      cases hm : word32? m with
      | some next =>
        rw [word32?_eq_some_iff.1 hm]
        exact ih next
      | none =>
        -- What comes behind cannot bring the number back into the range.
        have hlarge : word32? (Nat.ofDigitChars 10 digits m) = none := by
          have hle := le_ofDigitChars digits m
          unfold word32? at hm ⊢
          split at hm
          · cases hm
          · exact dif_neg (by omega)
        rw [hlarge, ite_self]
        rfl
    · rw [if_neg hc, Bool.eq_false_iff.2 hc, Bool.false_and]
      rfl

/-- **32 bits are enough to read a number of 32 bits**: to give up at the first digit behind which
there is no such number is to give up on exactly the texts that stand for no such number. -/
theorem read32?_eq_foldlM (text : String) :
    read32? text =
      if dropPlus text.toList = [] then none else (dropPlus text.toList).foldlM push? 0 := by
  unfold read32? read? isNumeral
  rw [foldlM_push?]
  cases hdigits : dropPlus text.toList with
  | nil => rfl
  | cons c digits =>
    rw [if_neg (List.cons_ne_nil c digits), List.isEmpty_cons, Bool.not_false, Bool.true_and]
    split <;> rfl

end Reading

end Numeral

/-! ## Numbers one after the other -/

open Numeral

namespace Token

variable {number : Token} {numbers : List Token} {fault : Fault}

theorem readNumber_eq_ok {n : UInt32} :
    number.readNumber = .ok n ↔ Denotes number.text.toList n.toNat := by
  rw [← read32?_eq_some_iff, readNumber]
  split
  · next found hfound => rw [hfound, Except.ok.injEq, Option.some.injEq]
  · next hnone => simp [hnone]

theorem readNumber_eq_error :
    number.readNumber = .error fault ↔
      ¬ Fits number.text ∧ fault = ⟨.numberTooLarge number.text, number.line⟩ := by
  rw [fits_iff, readNumber]
  split
  · next found hfound => simp [hfound]
  · next hnone => simp [hnone, eq_comm]

/-- The number does not fit, and all that are written before it do. -/
def FirstUnfit (numbers : List Token) (number : Token) : Prop :=
  ∃ before behind, numbers = before ++ number :: behind ∧
    (∀ other ∈ before, Fits other.text) ∧ ¬ Fits number.text

theorem fits_iff_readNumber : Fits number.text ↔ ∃ n, number.readNumber = .ok n := by
  simp only [fits_iff, read32?_eq_some_iff, readNumber_eq_ok]

theorem mapM_readNumber_cons (number : Token) (numbers : List Token) :
    (number :: numbers).mapM readNumber =
      match number.readNumber, numbers.mapM readNumber with
      | .error fault, _ => .error fault
      | .ok _, .error fault => .error fault
      | .ok n, .ok ns => .ok (n :: ns) := by
  rw [List.mapM_cons]
  cases number.readNumber with
  | error => rfl
  | ok n => cases numbers.mapM readNumber <;> rfl

/-- Numbers in the digits of their values are read as those values. -/
theorem mapM_readNumber_repr (line : Nat) (ns : List UInt32) :
    (ns.map fun n => Token.mk .number n.toNat.repr line).mapM readNumber = .ok ns := by
  have hread : ∀ n : UInt32, (Token.mk .number n.toNat.repr line).readNumber = .ok n := fun n => by
    rw [readNumber, read32?_repr]
  induction ns with
  | nil => rfl
  | cons n ns ih => rw [List.map_cons, mapM_readNumber_cons, hread, ih]

theorem mapM_readNumber_eq_ok {ns : List UInt32} :
    numbers.mapM readNumber = .ok ns ↔
      List.Forall₂ (fun number n => Denotes number.text.toList n.toNat) numbers ns := by
  constructor
  · intro h
    induction numbers generalizing ns with
    | nil =>
      cases h
      exact .nil
    | cons number numbers ih =>
      rw [mapM_readNumber_cons] at h
      split at h
      · cases h
      · cases h
      · next n others hfirst hothers =>
        cases h
        exact .cons (readNumber_eq_ok.1 hfirst) (ih hothers)
  · intro h
    induction h with
    | nil => rfl
    | cons hfirst _ ih => rw [mapM_readNumber_cons, readNumber_eq_ok.2 hfirst, ih]

theorem mapM_readNumber_eq_error :
    numbers.mapM readNumber = .error fault ↔
      ∃ number, FirstUnfit numbers number ∧ fault = ⟨.numberTooLarge number.text, number.line⟩ := by
  constructor
  · intro h
    induction numbers with
    | nil => cases h
    | cons number numbers ih =>
      rw [mapM_readNumber_cons] at h
      split at h
      · next found hfirst =>
        cases h
        obtain ⟨hunfit, rfl⟩ := readNumber_eq_error.1 hfirst
        exact ⟨number, ⟨[], numbers, rfl, List.forall_mem_nil _, hunfit⟩, rfl⟩
      · next n found hfirst hothers =>
        cases h
        obtain ⟨unfit, ⟨before, behind, rfl, hbefore, hunfit⟩, rfl⟩ := ih hothers
        have hfits := fits_iff_readNumber.2 ⟨n, hfirst⟩
        exact ⟨unfit, ⟨number :: before, behind, rfl, List.forall_mem_cons.2 ⟨hfits, hbefore⟩,
          hunfit⟩, rfl⟩
      · cases h
  · rintro ⟨unfit, ⟨before, behind, rfl, hbefore, hunfit⟩, rfl⟩
    induction before with
    | nil => rw [List.nil_append, mapM_readNumber_cons, readNumber_eq_error.2 ⟨hunfit, rfl⟩]
    | cons number before ih =>
      obtain ⟨hfits, hbefore⟩ := List.forall_mem_cons.1 hbefore
      obtain ⟨n, hfirst⟩ := fits_iff_readNumber.1 hfits
      rw [List.cons_append, mapM_readNumber_cons, hfirst, ih hbefore]

/-- All numbers are read exactly if all of them fit. -/
theorem exists_mapM_readNumber :
    (∃ ns, numbers.mapM readNumber = .ok ns) ↔ ∀ number ∈ numbers, Fits number.text := by
  constructor
  · rintro ⟨ns, h⟩
    replace h := mapM_readNumber_eq_ok.1 h
    induction h with
    | nil => exact List.forall_mem_nil _
    | @cons number n _ _ hfirst _ ih =>
      exact List.forall_mem_cons.2 ⟨⟨n.toNat, Nat.le_of_lt_succ n.toNat_lt, hfirst⟩, ih⟩
  · intro h
    cases hread : numbers.mapM readNumber with
    | ok ns => exact ⟨ns, rfl⟩
    | error fault =>
      obtain ⟨number, ⟨before, behind, rfl, -, hunfit⟩, -⟩ := mapM_readNumber_eq_error.1 hread
      exact absurd (h number (List.mem_append_right _ List.mem_cons_self)) hunfit

end Token

/-! ## Literals -/

theorem Cause.message_numberTooLarge (text : String) :
    (numberTooLarge text).message = "Number \"" ++ text ++ "\" is too large!" := by
  have hbefore : "Number \"" = "Number " ++ "\"" := by decide
  have hbehind : "\" is too large!" = "\"" ++ " is too large!" := by decide
  rw [hbefore, hbehind]
  show "Number " ++ ("\"" ++ text ++ "\"") ++ " is too large!" = _
  simp only [String.append_assoc]

/-- The numbers of the tree of a text are digits without a sign. -/
theorem Program.Printable.isDigits {program : Program} (h : program.Printable) {token : Token}
    {target : Target} {literal : Literal} (hclause : .assign token target literal ∈ program.clauses)
    {number : Token} (hnumber : number ∈ literal.numbers) : IsDigits number.text.toList := by
  have hpiece : Piece.kept .number number ∈ literal.yield := by
    cases literal with
    | number _ digits =>
      obtain rfl := List.mem_singleton.1 hnumber
      exact List.mem_singleton_self _
    | tuple _ numbers =>
      have hmem : Piece.kept .number number ∈ separatedBy .comma Token.asNumber numbers :=
        mem_separatedBy hnumber (List.mem_singleton_self _)
      exact List.mem_cons_of_mem _ (List.mem_append_left _ hmem)
    | color => cases hnumber
  have hwords := h.clause_words hclause
  exact isNumeral_iff.1 (hwords _ (List.mem_append_right _ (List.mem_cons_of_mem _ hpiece)))

namespace Literal

/-- The literal is one number or a tuple of them. -/
inductive InNumbers : Literal → Prop
  | number (token digits : Token) : InNumbers (.number token digits)
  | tuple (token : Token) (numbers : List Token) : InNumbers (.tuple token numbers)

section Numbers

variable {literal : Literal} (h : literal.InNumbers)

include h

/-- The numbers are read in the order in which they are written. -/
theorem value_of_numbers :
    literal.value = (literal.numbers.mapM Token.readNumber).map Value.mk := by
  cases h with
  | number token digits =>
    simp only [value, numbers, Token.mapM_readNumber_cons]
    cases digits.readNumber <;> rfl
  | tuple token numbers =>
    simp only [value, Literal.numbers]
    cases numbers.mapM Token.readNumber <;> rfl

theorem value_eq_ok {value : Value} :
    literal.value = .ok value ↔
      List.Forall₂ (fun number n => Denotes number.text.toList n.toNat) literal.numbers
        value.numbers := by
  rw [value_of_numbers h, ← Token.mapM_readNumber_eq_ok]
  cases literal.numbers.mapM Token.readNumber with
  | error fault => exact ⟨nofun, nofun⟩
  | ok ns =>
    obtain ⟨numbers⟩ := value
    simp only [Except.map, Except.ok.injEq, Value.mk.injEq]

theorem value_eq_error {fault : Fault} :
    literal.value = .error fault ↔ ∃ number, Token.FirstUnfit literal.numbers number ∧
      fault = ⟨.numberTooLarge number.text, number.line⟩ := by
  rw [value_of_numbers h, ← Token.mapM_readNumber_eq_error]
  cases literal.numbers.mapM Token.readNumber with
  | error found => simp only [Except.map, Except.error.injEq]
  | ok ns => exact ⟨nofun, nofun⟩

theorem exists_value :
    (∃ value, literal.value = .ok value) ↔ ∀ number ∈ literal.numbers, Fits number.text := by
  rw [value_of_numbers h, ← Token.exists_mapM_readNumber]
  cases literal.numbers.mapM Token.readNumber with
  | error fault => exact ⟨nofun, nofun⟩
  | ok ns => exact ⟨fun _ => ⟨ns, rfl⟩, fun _ => ⟨⟨ns⟩, rfl⟩⟩

/-- **Numbers are read exactly or refused**: a literal of numbers has a value exactly if all of them
fit into 32 bits. The value is what they stand for, in the order in which they are written;
otherwise the first that does not fit is at fault, on its own line. In the tree of a text a number
can only fail to fit by being too large. -/
theorem value_exact :
    ((∃ value, literal.value = .ok value) ↔ ∀ number ∈ literal.numbers, Fits number.text) ∧
    (∀ value, literal.value = .ok value →
      List.Forall₂ (fun number n => Denotes number.text.toList n.toNat) literal.numbers
        value.numbers) ∧
    (∀ fault, literal.value = .error fault → ∃ number, Token.FirstUnfit literal.numbers number ∧
      fault = ⟨.numberTooLarge number.text, number.line⟩ ∧
      fault.message = "Number \"" ++ number.text ++ "\" is too large!") ∧
    ∀ source program token target, Source.program source = .ok program →
      .assign token target literal ∈ program.clauses →
      ∀ number ∈ literal.numbers, ¬ Fits number.text →
        IsDigits number.text.toList ∧ 4294967295 < decimal number.text.toList := by
  refine ⟨exists_value h, fun value => (value_eq_ok h).1, ?_, ?_⟩
  · intro fault hfault
    obtain ⟨number, hfirst, rfl⟩ := (value_eq_error h).1 hfault
    exact ⟨number, hfirst, rfl, Cause.message_numberTooLarge number.text⟩
  · intro source program token target hsource hclause number hnumber hunfit
    have hdigits := (Source.printable_of_program hsource).isDigits hclause hnumber
    exact ⟨hdigits, lt_decimal_of_not_fits hdigits hunfit⟩

end Numbers

/-- Leading zeros, a plus sign and the largest number; a number that is too large in front of a text
that is no number; and a program text with a number that is too large by one. -/
theorem value_exact_of_largest_number :
    let number (text : String) (line : Nat) : Token := ⟨.number, text, line⟩
    let largest : Literal := .tuple default [number "007" 1, number "+04294967295" 1]
    let unfit : Literal := .tuple default [number "1" 1, number "4294967296" 2, number "" 3]
    let size : Token := ⟨.attr .size, "size", 1⟩
    let target : Target := .plain size ⟨size, .size⟩ (.canvas ⟨.canvas, "canvas", 1⟩)
    let tooLarge := number "04294967296" 1
    let written : Literal := .tuple ⟨.leftParen, "(", 1⟩ [number "1" 1, tooLarge]
    let program : Program := ⟨size, [⟨size, [.assign size target written]⟩]⟩
    largest.value = .ok ⟨[7, 4294967295]⟩ ∧ (∀ number ∈ largest.numbers, Fits number.text) ∧
      Denotes "+04294967295".toList (4294967295 : UInt32).toNat ∧
      unfit.value = .error ⟨.numberTooLarge "4294967296", 2⟩ ∧
      (∃ number, Token.FirstUnfit unfit.numbers number ∧ number.line = 2) ∧
      Source.program "size of canvas is (1, 04294967296)." = .ok program ∧
      ¬ Fits tooLarge.text ∧ 4294967295 < decimal tooLarge.text.toList := by
  intro number largest unfit size target tooLarge written program
  have hlargest : largest.value = .ok ⟨[7, 4294967295]⟩ := Token.eq_ok_of_toOption (by decide +kernel)
  have hunfit : unfit.value = .error ⟨.numberTooLarge "4294967296", 2⟩ :=
    Token.eq_error_of_faultOf (by decide +kernel)
  have hwritten : written.value = .error ⟨.numberTooLarge "04294967296", 1⟩ :=
    Token.eq_error_of_faultOf (by decide +kernel)
  have hprogram : Source.program "size of canvas is (1, 04294967296)." = .ok program :=
    Token.eq_ok_of_toOption (by decide +kernel)
  have hnumbers : ∀ token numbers, (Literal.tuple token numbers).InNumbers := .tuple
  obtain ⟨hfits, hexact, -⟩ := value_exact (hnumbers _ _ : largest.InNumbers)
  obtain ⟨-, -, hfault, -⟩ := value_exact (hnumbers _ _ : unfit.InNumbers)
  obtain ⟨-, -, hfault', hdigits⟩ := value_exact (hnumbers _ _ : written.InNumbers)
  obtain ⟨first, hfirst, hline, -⟩ := hfault _ hunfit
  obtain ⟨other, ⟨-, -, -, -, hother⟩, htext, -⟩ := hfault' _ hwritten
  have htooLarge : ¬ Fits tooLarge.text := by
    rwa [← Cause.numberTooLarge.inj (congrArg Fault.cause htext)] at hother
  obtain ⟨-, hlast⟩ := List.forall₂_cons.1 (hexact _ hlargest)
  refine ⟨hlargest, hfits.1 ⟨_, hlargest⟩, (List.forall₂_cons.1 hlast).1, hunfit,
    ⟨first, hfirst, (congrArg Fault.line hline).symm⟩, hprogram, htooLarge, ?_⟩
  exact (hdigits _ program size target hprogram (List.mem_singleton_self _) tooLarge
    (List.mem_cons_of_mem _ (List.mem_singleton_self _)) htooLarge).2

end Literal

end Tableau
