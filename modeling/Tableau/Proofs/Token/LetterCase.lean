import Mathlib.Data.List.Forall2
import Tableau.Proofs.Token.Taken
import Tableau.Source

/-!
# Letter case

Two characters are the `SameLetter` if they are equal or are one letter of ASCII in its two cases.
Texts that have the same letters, place by place, are scanned in lockstep: at every place the same
kind of token is taken, and as many characters of each text (`Token.Takes.recased`). So their tokens
have the same kinds and lines, and texts that differ in letter case alone, or both scans have the
same fault (`Source.tokens_recased`).

Letters outside of ASCII have no part in this. Some of them have an ASCII letter for their other
case in Unicode, as the Kelvin sign has `k`, but no word that is taken has such a character
(`Token.Takes.forall_ascii`).
-/

namespace Tableau

/-! ## Letters in two cases -/

/-- The first character is a capital letter of ASCII, and the second one is its small letter. -/
def IsCapitalOf (capital small : Char) : Prop :=
  'A' ≤ capital ∧ capital ≤ 'Z' ∧ small.toNat = capital.toNat + 32

/-- The same character, or one letter of ASCII in its two cases. -/
def SameLetter (c d : Char) : Prop := c = d ∨ IsCapitalOf c d ∨ IsCapitalOf d c

instance : DecidableRel IsCapitalOf := fun _ _ => inferInstanceAs (Decidable (_ ∧ _ ∧ _))

instance : DecidableRel SameLetter := fun _ _ => inferInstanceAs (Decidable (_ ∨ _ ∨ _))

section Letters

variable {c d : Char}

theorem isUpper_iff : c.isUpper = true ↔ 65 ≤ c.toNat ∧ c.toNat ≤ 90 := by
  unfold Char.isUpper
  simp [UInt32.le_iff_toNat_le, ← Char.toNat_val]

theorem isLower_iff : c.isLower = true ↔ 97 ≤ c.toNat ∧ c.toNat ≤ 122 := by
  unfold Char.isLower
  simp [UInt32.le_iff_toNat_le, ← Char.toNat_val]

namespace IsCapitalOf

theorem isUpper (h : IsCapitalOf c d) : c.isUpper = true := decide_eq_true ⟨h.1, h.2.1⟩

theorem isLower (h : IsCapitalOf c d) : d.isLower = true := by
  have hupper := isUpper_iff.1 h.isUpper
  have hsmall := h.2.2
  exact isLower_iff.2 (by omega)

theorem toLower_eq (h : IsCapitalOf c d) : c.toLower = d.toLower := by
  have hupper := isUpper_iff.1 h.isUpper
  have hlower := isLower_iff.1 h.isLower
  have hsmall : d.isUpper = false := by
    rw [Bool.eq_false_iff, ne_eq, isUpper_iff]
    omega
  have hshift : ('a'.val - 'A'.val).toNat = 32 := by decide
  rw [Token.toLower_of_not_isUpper hsmall]
  apply Char.toNat_inj.1
  unfold Char.toLower
  rw [dif_pos (show c.val ≥ 'A'.val ∧ c.val ≤ 'Z'.val from ⟨h.1, h.2.1⟩)]
  show (c.val + ('a'.val - 'A'.val)).toNat = d.toNat
  rw [UInt32.toNat_add, hshift, Char.toNat_val, h.2.2]
  omega

end IsCapitalOf

namespace SameLetter

theorem toLower_eq (h : SameLetter c d) : c.toLower = d.toLower := by
  rcases h with rfl | hcapital | hcapital
  · rfl
  · exact hcapital.toLower_eq
  · exact hcapital.toLower_eq.symm

/-- Characters that differ are letters. -/
theorem eq_or_isAlpha (h : SameLetter c d) : c = d ∨ c.isAlpha = true ∧ d.isAlpha = true := by
  unfold Char.isAlpha
  rcases h with rfl | hcapital | hcapital
  · exact .inl rfl
  · rw [hcapital.isUpper, hcapital.isLower, Bool.or_true, Bool.true_or]
    exact .inr ⟨rfl, rfl⟩
  · rw [hcapital.isUpper, hcapital.isLower, Bool.or_true, Bool.true_or]
    exact .inr ⟨rfl, rfl⟩

theorem isNameStart_eq (h : SameLetter c d) : isNameStart c = isNameStart d := by
  rcases h.eq_or_isAlpha with rfl | ⟨hc, hd⟩
  · rfl
  · unfold isNameStart
    rw [hc, hd, Bool.true_or, Bool.true_or]

theorem isNameCharacter_eq (h : SameLetter c d) : isNameCharacter c = isNameCharacter d := by
  rcases h.eq_or_isAlpha with rfl | ⟨hc, hd⟩
  · rfl
  · unfold isNameCharacter Char.isAlphanum
    simp only [hc, hd, Bool.true_or]

/-- What is no letter has no other case. -/
theorem eq_of_not_isNameStart (h : SameLetter c d) (hc : isNameStart c = false) : c = d := by
  rcases h.eq_or_isAlpha with rfl | ⟨hletter, -⟩
  · rfl
  · unfold isNameStart at hc
    rw [hletter, Bool.true_or] at hc
    cases hc

theorem isDigit_eq (h : SameLetter c d) : c.isDigit = d.isDigit := by
  rcases h.eq_or_isAlpha with rfl | ⟨hc, hd⟩
  · rfl
  · have hletter : ∀ {c : Char}, c.isAlpha = true → isNameStart c = true := fun hc => by
      unfold isNameStart
      rw [hc, Bool.true_or]
    rw [Token.not_isDigit_of_isNameStart (hletter hc), Token.not_isDigit_of_isNameStart (hletter hd)]

end SameLetter

end Letters

/-! ## Texts with the same letters -/

section Texts

variable {text text' : List Char}

theorem map_toLower_recased (h : List.Forall₂ SameLetter text text') :
    text.map Char.toLower = text'.map Char.toLower := by
  induction h with
  | nil => rfl
  | cons hc _ ih => rw [List.map_cons, List.map_cons, hc.toLower_eq, ih]

/-- A class of characters that has a letter in both cases or in none has all of both texts. -/
theorem forall_mem_recased {p : Char → Bool} (hp : ∀ {c d}, SameLetter c d → p c = p d)
    (h : List.Forall₂ SameLetter text text') (htext : ∀ c ∈ text, p c = true) :
    ∀ d ∈ text', p d = true := by
  induction h with
  | nil => exact List.forall_mem_nil _
  | cons hc _ ih =>
    obtain ⟨hfirst, hothers⟩ := List.forall_mem_cons.1 htext
    exact List.forall_mem_cons.2 ⟨hp hc ▸ hfirst, ih hothers⟩

/-- A class of characters that has a letter in both cases or in none stops both texts. -/
theorem head?_recased {p : Char → Bool} (hp : ∀ {c d}, SameLetter c d → p c = p d)
    (h : List.Forall₂ SameLetter text text') (htext : ∀ c ∈ text.head?, p c = false) :
    ∀ d ∈ text'.head?, p d = false := by
  cases h with
  | nil => exact htext
  | cons hc _ =>
    rintro d ⟨⟩
    exact hp hc ▸ htext _ rfl

end Texts

namespace Token

open Kind

section Words

variable {kind : Kind} {word word' rest rest' : List Char}

theorem IsIdentifier.recased (h : IsIdentifier word) (hword : List.Forall₂ SameLetter word word') :
    IsIdentifier word' := by
  cases hword with
  | nil => exact h
  | cons hc hrest =>
    exact ⟨hc.isNameStart_eq ▸ h.1, forall_mem_recased SameLetter.isNameCharacter_eq hrest h.2⟩

theorem IsName.recased (h : IsName word) (hword : List.Forall₂ SameLetter word word') :
    IsName word' where
  identifier := h.identifier.recased hword
  keywordFree kind keyword hkeyword hprefix :=
    h.keywordFree kind keyword hkeyword (map_toLower_recased hword ▸ hprefix)

theorem isNumeral_recased (h : Numeral.isNumeral word = true)
    (hword : List.Forall₂ SameLetter word word') : Numeral.isNumeral word' = true := by
  obtain ⟨hne, hdigits⟩ := Bool.and_eq_true_iff.1 h
  have hdigits' := forall_mem_recased SameLetter.isDigit_eq hword (List.all_eq_true.1 hdigits)
  cases hword with
  | nil => exact h
  | cons => exact Bool.and_eq_true_iff.2 ⟨rfl, List.all_eq_true.2 hdigits'⟩

/-- Letter case does not change what is taken where. -/
theorem Takes.recased (h : Takes kind word rest) (hword : List.Forall₂ SameLetter word word')
    (hrest : List.Forall₂ SameLetter rest rest') : Takes kind word' rest' := by
  cases h with
  | keyword hkeyword hlower => exact .keyword hkeyword (map_toLower_recased hword ▸ hlower)
  | name hname hstops =>
    exact .name (hname.recased hword) (head?_recased SameLetter.isNameCharacter_eq hrest hstops)
  | number hnumber hdigit =>
    exact .number (isNumeral_recased hnumber hword)
      (head?_recased SameLetter.isDigit_eq hrest hdigit)
  | blank hblank =>
    cases hword with
    | cons hc hnil =>
      cases hnil
      obtain ⟨-, hstart, -⟩ := isBlankCharacter_apart hblank
      obtain rfl := hc.eq_of_not_isNameStart hstart
      exact .blank hblank

end Words

/-! ## Scanning in lockstep -/

/-- The same kind and line, and texts with the same letters. -/
structure Recased (token other : Token) : Prop where
  kind_eq : token.kind = other.kind
  line_eq : token.line = other.line
  letters : List.Forall₂ SameLetter token.text.toList other.text.toList

/-- Tokens that are the same up to letter case, or the same fault. -/
inductive RecasedScan : Except Fault (List Token) → Except Fault (List Token) → Prop
  | ok {tokens others : List Token} : List.Forall₂ Recased tokens others →
    RecasedScan (.ok tokens) (.ok others)
  | error (fault : Fault) : RecasedScan (.error fault) (.error fault)

theorem recasedScan (line : Nat) (text : List Char) :
    ∀ text', List.Forall₂ SameLetter text text' →
      RecasedScan (scan priority line text) (scan priority line text') := by
  refine scan_induct (motive := fun line text answer => ∀ text', List.Forall₂ SameLetter text text' →
    RecasedScan answer (scan priority line text')) ?nil ?foreign ?blank ?word line text
  case nil =>
    rintro line text' ⟨⟩
    rw [scan_nil]
    exact .ok .nil
  case foreign =>
    rintro line c rest hc text' (_ | ⟨hsame, hrest⟩)
    have hstart : isNameStart c = false := by
      rw [Bool.eq_false_iff]
      exact fun hstart => hc (isProgramCharacter_iff.2 (.inl (isNameCharacter_of_isNameStart hstart)))
    obtain rfl := hsame.eq_of_not_isNameStart hstart
    rw [scan_stuck (firstMatch_eq_none_iff.2 hc)]
    exact .error _
  case blank =>
    rintro line c rest answer hblank ih text' (_ | ⟨hsame, hrest⟩)
    obtain ⟨-, hstart, -⟩ := isBlankCharacter_apart hblank
    obtain rfl := hsame.eq_of_not_isNameStart hstart
    rw [scan_blank (firstMatch_blank hblank _)]
    exact ih _ hrest
  case word =>
    intro line kind word rest answer htakes hkind _ ih text' htext
    have hword : List.Forall₂ SameLetter word (text'.take word.length) := by
      have htake := List.forall₂_take word.length htext
      rwa [List.take_left] at htake
    have hrest : List.Forall₂ SameLetter rest (text'.drop word.length) := by
      have hdrop := List.forall₂_drop word.length htext
      rwa [List.drop_left] at hdrop
    rw [← List.take_append_drop word.length text', scan_takes (htakes.recased hword hrest) hkind]
    have hscan := ih _ hrest
    generalize scan priority line (text'.drop word.length) = answer' at hscan ⊢
    cases hscan with
    | error fault => exact .error fault
    | ok htokens =>
      refine .ok (.cons ⟨rfl, rfl, ?_⟩ htokens)
      rw [String.toList_ofList, String.toList_ofList]
      exact hword

end Token

namespace Source

/-- **Letter case never moves a token**: texts of one length with the same letter at every place
have tokens of the same kinds, on the same lines and with the same letters, or both have the same
fault. Letters are those of ASCII: no keyword covers a character outside of it, though Unicode may
have an ASCII letter for its other case. -/
theorem tokens_recased :
    (∀ source source' : String, List.Forall₂ SameLetter source.toList source'.toList →
      Token.RecasedScan (tokens source) (tokens source')) ∧
    ∀ (kind : Token.Kind) (keyword : String) (text word : List Char),
      kind.keyword? = some keyword → kind.lexeme? text = some word → ∀ c ∈ word, c.toNat < 128 := by
  constructor
  · exact fun source source' h => Token.recasedScan 1 source.toList source'.toList h
  · intro kind keyword text word hkeyword hlexeme
    obtain ⟨rest, -, htakes⟩ := Token.takes_of_keyword hkeyword hlexeme
    exact htakes.forall_ascii

/-- Keywords, names and glued words in mixed case. The Kelvin sign has `k` for its small letter, and
the long `s` has `S` for its capital; neither is a letter of a keyword. -/
theorem tokens_recased_of_glued_words :
    let source := "a IS\nblackBOX10."
    let source' := "A is\nBLACKbox10."
    List.Forall₂ SameLetter source.toList source'.toList ∧
      tokens source = .ok [⟨.name, "a", 1⟩, ⟨.is, "IS", 1⟩, ⟨.color .black, "black", 2⟩,
        ⟨.name, "BOX10", 2⟩, ⟨.period, ".", 2⟩] ∧
      Token.RecasedScan (tokens source) (tokens source') ∧
      Token.Kind.lexeme? (.color .black) "BLACKbox".toList = some "BLACK".toList ∧
      (∀ c ∈ "BLACK".toList, c.toNat < 128) ∧
      Token.Kind.lexeme? (.color .black) "BLAC\u212a".toList = none ∧
      tokens "BLAC\u212a" = .error ⟨.unknownCharacter '\u212a', 1⟩ ∧
      tokens "i\u017f" = .error ⟨.unknownCharacter '\u017f', 1⟩ := by
  intro source source'
  have hsame : List.Forall₂ SameLetter source.toList source'.toList := by decide +kernel
  have hlexeme : Token.Kind.lexeme? (.color .black) "BLACKbox".toList = some "BLACK".toList := by
    decide +kernel
  exact ⟨hsame, Token.scan_eq_ok_of_toOption (by decide +kernel), tokens_recased.1 _ _ hsame,
    hlexeme, tokens_recased.2 _ "black" _ _ rfl hlexeme, by decide +kernel,
    Token.eq_error_of_faultOf (by decide +kernel), Token.eq_error_of_faultOf (by decide +kernel)⟩

end Source

end Tableau
