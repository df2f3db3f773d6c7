/-!
# Numerals

Numbers are written as `Nat.repr` writes them: in base ten, without leading zeros. Reading accepts
more: any non-empty run of the digits `0` to `9`, with any number of leading zeros, and `read32?`
also one plus sign in front. The bound of a 32-bit number is exact, however long the run is.

Other bases are read by `readRadix?`, with letters of either case for the digits from ten on.
-/

namespace Tableau.Numeral

/-- The number that a run of digits denotes, of any length. -/
def value (digits : List Char) : Nat := Nat.ofDigitChars 10 digits 0

/-- Whether a text is a non-empty run of digits. -/
def isNumeral (text : List Char) : Bool := !text.isEmpty && text.all Char.isDigit

def read? (text : List Char) : Option Nat := if isNumeral text then some (value text) else none

def word32? (n : Nat) : Option UInt32 :=
  if h : n < UInt32.size then some (UInt32.ofNatLT n h) else none

def dropPlus : List Char → List Char
  | '+' :: text => text
  | text => text

/-- The 32-bit number that a text denotes: a numeral with at most one plus sign in front. -/
def read32? (text : String) : Option UInt32 := (read? (dropPlus text.toList)).bind word32?

def digit? (radix : Nat) (c : Char) : Option Nat :=
  let value? :=
    if '0' ≤ c ∧ c ≤ '9' then some (c.toNat - '0'.toNat)
    else if 'a' ≤ c ∧ c ≤ 'z' then some (c.toNat - 'a'.toNat + 10)
    else if 'A' ≤ c ∧ c ≤ 'Z' then some (c.toNat - 'A'.toNat + 10)
    else none
  value?.filter (· < radix)

/-- The number that a non-empty run of digits denotes in a base. -/
def readRadix? (radix : Nat) (digits : List Char) : Option Nat :=
  if digits.isEmpty then none
  else digits.foldlM (fun n c => (digit? radix c).map (radix * n + ·)) 0

@[simp] theorem value_toDigits (n : Nat) : value (Nat.toDigits 10 n) = n :=
  Nat.ofDigitChars_toDigits (by decide) (by decide)

theorem isDigit_of_mem_toDigits {n : Nat} {c : Char} (h : c ∈ Nat.toDigits 10 n) :
    c.isDigit = true :=
  Nat.isDigit_of_mem_toDigits (by decide) (by decide) h

/-- A numeral starts with a digit. -/
theorem exists_toDigits_eq_cons (n : Nat) :
    ∃ c digits, Nat.toDigits 10 n = c :: digits ∧ c.isDigit = true := by
  obtain ⟨c, digits, hcons⟩ :=
    List.exists_cons_of_ne_nil (List.ne_nil_of_length_pos (Nat.length_toDigits_pos (b := 10) (n := n)))
  exact ⟨c, digits, hcons, isDigit_of_mem_toDigits (hcons ▸ List.mem_cons_self)⟩

theorem isNumeral_toDigits (n : Nat) : isNumeral (Nat.toDigits 10 n) = true := by
  have hdigits : ∀ c ∈ Nat.toDigits 10 n, c.isDigit = true := fun _ => isDigit_of_mem_toDigits
  have hne : Nat.toDigits 10 n ≠ [] := List.ne_nil_of_length_pos Nat.length_toDigits_pos
  simp [isNumeral, hne, List.all_eq_true.2 hdigits]

/-- Only the numeral of zero starts with a zero. -/
theorem head?_toDigits_ne_zero {n : Nat} (h : n ≠ 0) : (Nat.toDigits 10 n).head? ≠ some '0' := by
  induction n using Nat.strongRecOn with
  | ind n ih =>
    by_cases hlarge : 10 ≤ n
    · have hrest := ih (n / 10) (by omega) (by omega)
      rw [Nat.toDigits_of_base_le (by decide) hlarge, List.head?_append]
      cases hdigits : Nat.toDigits 10 (n / 10) with
      | nil => exact absurd hdigits (List.ne_nil_of_length_pos Nat.length_toDigits_pos)
      | cons c digits => rwa [hdigits] at hrest
    · have hdigit : ∀ d : Fin 10, d.val ≠ 0 → Nat.digitChar d.val ≠ '0' := by decide
      rw [Nat.toDigits_of_lt_base (by omega), List.head?_cons]
      intro hzero
      exact hdigit ⟨n, by omega⟩ h (Option.some.inj hzero)

@[simp] theorem read?_toDigits (n : Nat) : read? (Nat.toDigits 10 n) = some n := by
  simp [read?, isNumeral_toDigits]

@[simp] theorem word32?_toNat (n : UInt32) : word32? n.toNat = some n := by
  simp [word32?, n.toNat_lt]

theorem dropPlus_of_isNumeral {text : List Char} (h : isNumeral text = true) :
    dropPlus text = text := by
  unfold dropPlus
  split
  · simp [isNumeral] at h
  · rfl

/-- The numeral of a 32-bit number is read as that number. -/
@[simp] theorem read32?_repr (n : UInt32) : read32? n.toNat.repr = some n := by
  unfold read32?
  rw [Nat.toList_repr, dropPlus_of_isNumeral (isNumeral_toDigits _), read?_toDigits,
    Option.bind_some, word32?_toNat]

theorem digit?_of_isDigit {c : Char} (h : c.isDigit = true) :
    digit? 10 c = some (c.toNat - '0'.toNat) := by
  obtain ⟨hlow, hhigh⟩ := Bool.and_eq_true_iff.1 h
  have hlow := of_decide_eq_true hlow
  have hhigh := of_decide_eq_true hhigh
  have hsmall : c.toNat ≤ 57 := hhigh
  have hnumber : c.toNat - '0'.toNat < 10 := by
    change c.toNat - 48 < 10
    omega
  unfold digit?
  rw [if_pos ⟨hlow, hhigh⟩]
  exact if_pos (decide_eq_true hnumber)

/-- A run of decimal digits denotes the same number in base ten as a numeral. -/
theorem readRadix?_of_isNumeral {digits : List Char} (h : isNumeral digits = true) :
    readRadix? 10 digits = some (value digits) := by
  obtain ⟨hne, hdigits⟩ := Bool.and_eq_true_iff.1 h
  have hfold : ∀ part : List Char, part.all Char.isDigit = true → ∀ n,
      part.foldlM (fun n c => (digit? 10 c).map (10 * n + ·)) n = some (Nat.ofDigitChars 10 part n) := by
    intro part hpart
    induction part with
    | nil => intro n; rfl
    | cons c part ih =>
      intro n
      obtain ⟨hc, hpart⟩ := Bool.and_eq_true_iff.1 hpart
      rw [List.foldlM_cons, digit?_of_isDigit hc]
      exact ih hpart _
  unfold readRadix?
  rw [if_neg (by simpa using hne)]
  exact hfold digits hdigits 0

end Tableau.Numeral
