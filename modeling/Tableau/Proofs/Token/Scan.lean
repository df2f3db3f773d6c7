import Tableau.Numeral
import Tableau.Token.Lexer

/-!
# Scanning word by word

At each place of a text the scan takes the first kind of token that covers something there.

* A keyword is taken wherever it stands, whatever comes behind it: no keyword is the start of
  another one (`firstMatch_keyword`).
* A name is taken whole if it starts with no keyword and ends where it has to end
  (`firstMatch_name`), and so is a number (`firstMatch_number`).
* Nothing else is ever taken for a name or a number (`isName_of_firstMatch`,
  `isNumeral_of_firstMatch`).

So the tokens of a text can be read off its words, one word after the other (`scan_word`,
`scan_blank`), and the tokens of any text have names and numerals for texts (`scan_eq_ok_forall`).
-/

namespace Tableau.Token

open Kind

/-! ## Names -/

/-- `[a-zA-Z_][a-zA-Z0-9_]*` -/
def IsIdentifier : List Char → Prop
  | [] => False
  | c :: rest => isNameStart c = true ∧ ∀ d ∈ rest, isNameCharacter d = true

/-- No keyword is the start of the text, in any letter case. -/
def KeywordFree (text : List Char) : Prop :=
  ∀ kind word, Kind.keyword? kind = some word → ¬ word.toList <+: text.map Char.toLower

/-- An identifier that starts with no keyword. -/
structure IsName (text : List Char) : Prop where
  identifier : IsIdentifier text
  keywordFree : KeywordFree text

/-- The text cannot go on with a character of a name or a number. -/
def Stops (text : List Char) : Prop := ∀ c ∈ text.head?, isNameCharacter c = false

theorem stops_nil : Stops [] := fun c hc => by cases hc

theorem stops_cons {c : Char} {text : List Char} (h : isNameCharacter c = false) :
    Stops (c :: text) := fun d hd => by
  obtain rfl := Option.some.inj hd
  exact h

theorem isNameCharacter_of_isNameStart {c : Char} (h : isNameStart c = true) :
    isNameCharacter c = true := by
  unfold isNameStart at h
  unfold isNameCharacter Char.isAlphanum
  rcases Bool.or_eq_true_iff.1 h with h | h
  · rw [h, Bool.true_or, Bool.true_or]
  · rw [h, Bool.or_true]

theorem isNameCharacter_of_isDigit {c : Char} (h : c.isDigit = true) :
    isNameCharacter c = true := by
  unfold isNameCharacter Char.isAlphanum
  rw [h, Bool.or_true, Bool.true_or]

/-- What cannot go on with a character of a name cannot go on with a digit. -/
theorem Stops.head_not_digit {text : List Char} (h : Stops text) :
    ∀ c ∈ text.head?, c.isDigit = false := by
  intro c hc
  apply Bool.eq_false_iff.2
  intro hdigit
  exact absurd (isNameCharacter_of_isDigit hdigit) (by simp [h c hc])

theorem not_isDigit_of_isNameStart {c : Char} (h : isNameStart c = true) : c.isDigit = false := by
  have hnine : ('9' : Char).val.toNat < ('A' : Char).val.toNat := by decide
  have hcases : ('A' : Char).val.toNat < ('a' : Char).val.toNat := by decide
  unfold isNameStart Char.isAlpha Char.isUpper Char.isLower at h
  unfold Char.isDigit
  simp only [Bool.or_eq_true, Bool.and_eq_true, decide_eq_true_eq, ge_iff_le,
    UInt32.le_iff_toNat_le, Bool.and_eq_false_iff, decide_eq_false_iff_not] at *
  rcases h with (h | h) | rfl
  · omega
  · omega
  · exact .inr (by decide)

theorem IsIdentifier.forall_mem {text : List Char} (h : IsIdentifier text) :
    ∀ c ∈ text, isNameCharacter c = true := by
  cases text with
  | nil => exact h.elim
  | cons c rest =>
    exact List.forall_mem_cons.2 ⟨isNameCharacter_of_isNameStart h.1, h.2⟩

/-- Only capital letters have a lower case of their own. -/
theorem toLower_of_not_isUpper {c : Char} (h : c.isUpper = false) : c.toLower = c := by
  unfold Char.toLower
  rw [dif_neg (of_decide_eq_false h)]

theorem isLower_toLower {c : Char} (h : c.isUpper = true) : c.toLower.isLower = true := by
  have hrange : c.val ≥ 'A'.val ∧ c.val ≤ 'Z'.val := of_decide_eq_true h
  have hshift : ('a'.val - 'A'.val).toNat = 32 := by decide
  unfold Char.toLower Char.isLower
  rw [dif_pos hrange]
  simp only [ge_iff_le, UInt32.le_iff_toNat_le, Bool.and_eq_true, decide_eq_true_eq,
    UInt32.toNat_add, hshift] at hrange ⊢
  have hA : 'A'.val.toNat = 65 := rfl
  have hZ : 'Z'.val.toNat = 90 := rfl
  have ha : 'a'.val.toNat = 97 := rfl
  have hz : 'z'.val.toNat = 122 := rfl
  omega

theorem isNameStart_toLower {c : Char} (h : isNameStart c = true) :
    isNameStart c.toLower = true := by
  by_cases hupper : c.isUpper = true
  · unfold isNameStart Char.isAlpha
    rw [isLower_toLower hupper, Bool.or_true, Bool.true_or]
  · rwa [toLower_of_not_isUpper (Bool.eq_false_iff.2 hupper)]

theorem isNameCharacter_of_toLower {c : Char} (h : isNameCharacter c.toLower = true) :
    isNameCharacter c = true := by
  by_cases hupper : c.isUpper = true
  · unfold isNameCharacter Char.isAlphanum Char.isAlpha
    rw [hupper, Bool.true_or, Bool.true_or, Bool.true_or]
  · rwa [toLower_of_not_isUpper (Bool.eq_false_iff.2 hupper)] at h

theorem toLower_of_isDigit {c : Char} (h : c.isDigit = true) : c.toLower = c := by
  apply toLower_of_not_isUpper
  unfold Char.isDigit at h
  unfold Char.isUpper
  simp only [Bool.and_eq_true, decide_eq_true_eq, ge_iff_le, UInt32.le_iff_toNat_le,
    decide_eq_false_iff_not, not_and] at *
  have : ('9' : Char).val.toNat < ('A' : Char).val.toNat := by decide
  omega

theorem toLower_of_isBlankCharacter {c : Char} (h : isBlankCharacter c = true) : c.toLower = c := by
  simp only [isBlankCharacter, decide_eq_true_eq, List.mem_cons, List.not_mem_nil, or_false] at h
  rcases h with rfl | rfl | rfl | rfl | rfl | rfl <;> decide

/-- No name and no number has a blank in it. -/
theorem isBlankCharacter_apart {c : Char} (h : isBlankCharacter c = true) :
    isNameCharacter c = false ∧ isNameStart c = false ∧ c.isDigit = false := by
  simp only [isBlankCharacter, decide_eq_true_eq, List.mem_cons, List.not_mem_nil, or_false] at h
  rcases h with rfl | rfl | rfl | rfl | rfl | rfl <;> decide

/-! ## Keywords -/

/-- The kinds with a keyword, in the order in which they are tried. -/
def Kind.keywords : List Kind := priority.filter (·.keyword?.isSome)

theorem priority_eq : priority = keywords ++ [.number, .name, .blank] := by decide

theorem pattern_of_keyword? {kind : Kind} {word : String} (h : kind.keyword? = some word) :
    kind.pattern = some (.keyword word) := by
  unfold Kind.keyword? at h
  split at h
  · next hpattern => rw [hpattern, Option.some.inj h]
  · cases h

theorem mem_keywords {kind : Kind} {word : String} (h : kind.keyword? = some word) :
    kind ∈ keywords := by
  refine List.mem_filter.2 ⟨mem_priority_iff.2 ?_, by rw [h]; rfl⟩
  rw [pattern_of_keyword? h]
  exact Option.some_ne_none _

/-- What the keywords have in common: they are in lower case, only a keyword of one character has
a character that no name has, and none starts like a number or a blank. -/
theorem keywords_shape : ∀ kind ∈ keywords, ∀ word ∈ kind.keyword?,
    word.toList.map Char.toLower = word.toList ∧
      (∀ c ∈ word.toList.tail, isNameCharacter c = true) ∧
      ∃ c ∈ word.toList.head?, c.isDigit = false ∧ isBlankCharacter c = false := by
  have hcheck : ∀ kind ∈ keywords, ∀ word ∈ kind.keyword?,
      word.toList.map Char.toLower = word.toList ∧
        word.toList.tail.all isNameCharacter = true ∧
        word.toList.head?.any (fun c => !c.isDigit && !isBlankCharacter c) = true := by
    decide +kernel
  intro kind hkind word hword
  obtain ⟨hlower, htail, hhead⟩ := hcheck kind hkind word hword
  obtain ⟨c, hc, hfirst⟩ := (Option.any_eq_true _ _).1 hhead
  rw [Bool.and_eq_true, Bool.not_eq_true', Bool.not_eq_true'] at hfirst
  exact ⟨hlower, List.all_eq_true.1 htail, c, hc, hfirst⟩

/-- No keyword is the start of another one. -/
theorem keywords_prefixFree : ∀ kind ∈ keywords, ∀ word ∈ kind.keyword?,
    ∀ kind' ∈ keywords, ∀ word' ∈ kind'.keyword?, word.toList <+: word'.toList → kind = kind' := by
  decide +kernel

theorem startsWithWord_iff {word text : List Char} :
    startsWithWord word text = true ↔ word <+: text.map Char.toLower := by
  rw [startsWithWord, decide_eq_true_eq, List.prefix_iff_eq_take, List.map_take]
  exact eq_comm

/-! ## What a kind covers -/

section Lexeme

variable {kind : Kind} {text : List Char}

theorem lexeme?_eq {pattern : Pattern} (h : kind.pattern = some pattern) :
    kind.lexeme? text = if pattern.lexeme text = [] then none else some (pattern.lexeme text) := by
  unfold Kind.lexeme?
  rw [h]
  cases hlexeme : pattern.lexeme text with
  | nil => simp only [hlexeme, if_pos]
  | cons c word => simp only [hlexeme, reduceCtorEq, if_false]

theorem lexeme?_ne_none {pattern : Pattern} (h : kind.pattern = some pattern)
    (hlexeme : pattern.lexeme text ≠ []) : kind.lexeme? text ≠ none := by
  rw [lexeme?_eq h, if_neg hlexeme]
  exact Option.some_ne_none _

theorem lexeme_of_lexeme? (pattern : Pattern) {word : List Char}
    (hpattern : kind.pattern = some pattern) (h : kind.lexeme? text = some word) :
    pattern.lexeme text = word ∧ word ≠ [] := by
  rw [lexeme?_eq hpattern] at h
  split at h
  · cases h
  · next hne =>
    obtain rfl := Option.some.inj h
    exact ⟨rfl, hne⟩

theorem lexeme_identifier {c : Char} {rest : List Char} (h : isNameStart c = true) :
    Pattern.identifier.lexeme (c :: rest) = (c :: rest).takeWhile isNameCharacter := if_pos h

/-- What covers something as an identifier starts like one. -/
theorem isNameStart_of_lexeme (h : Pattern.identifier.lexeme text ≠ []) :
    ∃ c rest, text = c :: rest ∧ isNameStart c = true := by
  match text with
  | [] => exact absurd rfl h
  | c :: rest =>
    by_cases hstart : isNameStart c = true
    · exact ⟨c, rest, rfl, hstart⟩
    · exact absurd (if_neg hstart) h

theorem lexeme?_of_keyword {word : String} (h : kind.keyword? = some word)
    (hword : word.toList <+: text.map Char.toLower) :
    kind.lexeme? text = some (text.take word.toList.length) := by
  obtain ⟨-, -, c, hc, -⟩ := keywords_shape kind (mem_keywords h) word h
  have hlexeme : (Pattern.keyword word).lexeme text = text.take word.toList.length :=
    if_pos (startsWithWord_iff.2 hword)
  have hne : text.take word.toList.length ≠ [] := by
    have hpos := List.length_pos_of_mem (List.mem_of_mem_head? hc)
    have hle := hword.length_le
    rw [List.length_map] at hle
    apply List.ne_nil_of_length_pos
    rw [List.length_take]
    omega
  rw [lexeme?_eq (pattern_of_keyword? h), hlexeme, if_neg hne]

theorem lexeme?_of_keyword_eq_none {word : String} (h : kind.keyword? = some word)
    (hword : ¬ word.toList <+: text.map Char.toLower) : kind.lexeme? text = none := by
  have hlexeme : (Pattern.keyword word).lexeme text = [] :=
    if_neg fun hstart => hword (startsWithWord_iff.1 hstart)
  rw [lexeme?_eq (pattern_of_keyword? h), if_pos hlexeme]

end Lexeme

/-! ## What is taken -/

theorem firstMatch_append (first second : List Kind) (text : List Char) :
    firstMatch (first ++ second) text = (firstMatch first text).or (firstMatch second text) :=
  List.findSome?_append

/-- A kind is taken if none before it covers anything. -/
theorem firstMatch_append_cons {before after : List Kind} {kind : Kind} {text word : List Char}
    (hbefore : ∀ other ∈ before, other.lexeme? text = none)
    (hword : kind.lexeme? text = some word) :
    firstMatch (before ++ kind :: after) text = some (kind, word) := by
  have hnone : firstMatch before text = none :=
    List.findSome?_eq_none_iff.2 fun other hother => by rw [hbefore other hother, Option.map_none]
  rw [firstMatch_append, hnone, Option.none_or]
  unfold firstMatch
  rw [List.findSome?_cons, hword]
  rfl

theorem firstMatch_eq_some {order : List Kind} {kind : Kind} {text word : List Char}
    (hmem : kind ∈ order) (hword : kind.lexeme? text = some word)
    (honly : ∀ other ∈ order, other.lexeme? text ≠ none → other = kind) :
    firstMatch order text = some (kind, word) := by
  obtain ⟨before, after, rfl, hnot⟩ := List.eq_append_cons_of_mem hmem
  refine firstMatch_append_cons (fun other hother => ?_) hword
  refine Classical.byContradiction fun hcovers => hnot ?_
  obtain rfl := honly other (List.mem_append_left _ hother) hcovers
  exact hother

/-- A keyword is taken in any letter case, whatever comes behind it. -/
theorem firstMatch_spelled {kind : Kind} {keyword : String} {word : List Char}
    (h : kind.keyword? = some keyword) (hword : word.map Char.toLower = keyword.toList)
    (rest : List Char) : firstMatch priority (word ++ rest) = some (kind, word) := by
  have hstart : keyword.toList <+: (word ++ rest).map Char.toLower := by
    rw [List.map_append, hword]
    exact List.prefix_append _ _
  have hlength : keyword.toList.length = word.length := by
    rw [← hword, List.length_map]
  have hkeywords : firstMatch keywords (word ++ rest) = some (kind, word) := by
    refine firstMatch_eq_some (mem_keywords h) ?_ fun other hother hlexeme => ?_
    · rw [lexeme?_of_keyword h hstart, hlength, List.take_left]
    · obtain ⟨word', hword'⟩ := Option.isSome_iff_exists.1 (List.mem_filter.1 hother).2
      have hstart' : word'.toList <+: (word ++ rest).map Char.toLower := by
        by_cases hprefix : word'.toList <+: (word ++ rest).map Char.toLower
        · exact hprefix
        · exact absurd (lexeme?_of_keyword_eq_none hword' hprefix) hlexeme
      rcases List.prefix_or_prefix_of_prefix hstart' hstart with hprefix | hprefix
      · exact keywords_prefixFree other hother word' hword' kind (mem_keywords h) keyword h hprefix
      · exact (keywords_prefixFree kind (mem_keywords h) keyword h other hother word' hword'
          hprefix).symm
  rw [priority_eq, firstMatch_append, hkeywords]
  rfl

theorem firstMatch_keyword {kind : Kind} {word : String} (h : kind.keyword? = some word)
    (rest : List Char) :
    firstMatch priority (word.toList ++ rest) = some (kind, word.toList) :=
  firstMatch_spelled h (keywords_shape kind (mem_keywords h) word h).1 rest

/-- Where no keyword starts, only a number, a name or a blank can be taken. -/
theorem firstMatch_of_keywordFree {text : List Char} (h : KeywordFree text) :
    firstMatch priority text = firstMatch [.number, .name, .blank] text := by
  have hkeywords : firstMatch keywords text = none := by
    refine List.findSome?_eq_none_iff.2 fun kind hkind => ?_
    obtain ⟨word, hword⟩ := Option.isSome_iff_exists.1 (List.mem_filter.1 hkind).2
    rw [lexeme?_of_keyword_eq_none hword (h kind word hword)]
    rfl
  rw [priority_eq, firstMatch_append, hkeywords]
  rfl

theorem takeWhile_append_of_stop {p : Char → Bool} {word rest : List Char}
    (hword : ∀ c ∈ word, p c = true) (hrest : ∀ c ∈ rest.head?, p c = false) :
    (word ++ rest).takeWhile p = word := by
  rw [List.takeWhile_append_of_pos hword]
  cases rest with
  | nil => exact List.append_nil word
  | cons c rest =>
    rw [List.takeWhile_cons_of_neg (by simp [hrest c rfl]), List.append_nil]

/-- A keyword does not reach beyond a word that stops. -/
theorem KeywordFree.append {word rest : List Char} (h : KeywordFree word) (hne : word ≠ [])
    (hrest : Stops rest) : KeywordFree (word ++ rest) := by
  intro kind keyword hkeyword hprefix
  obtain ⟨-, htail, -⟩ := keywords_shape kind (mem_keywords hkeyword) keyword hkeyword
  rw [List.map_append] at hprefix
  rcases List.prefix_or_prefix_of_prefix hprefix (List.prefix_append _ _) with hshort | ⟨more, hmore⟩
  · exact h kind keyword hkeyword hshort
  · cases more with
    | nil =>
      rw [List.append_nil] at hmore
      exact h kind keyword hkeyword (hmore ▸ List.prefix_rfl)
    | cons d more =>
      -- The keyword goes on with a character of a name, and the text does not.
      obtain ⟨first, word, rfl⟩ := List.exists_cons_of_ne_nil hne
      rw [← hmore, List.prefix_append_right_inj] at hprefix
      cases rest with
      | nil => exact absurd (List.prefix_nil.1 hprefix) (List.cons_ne_nil _ _)
      | cons c rest =>
        obtain ⟨hd, -⟩ := List.cons_prefix_cons.1 hprefix
        have hmem : d ∈ keyword.toList.tail := by
          rw [← hmore]
          exact List.mem_append_right _ List.mem_cons_self
        have hname := htail d hmem
        rw [hd] at hname
        exact absurd (isNameCharacter_of_toLower hname) (by simp [hrest c rfl])

/-- A name is taken whole where it ends. -/
theorem firstMatch_name {word rest : List Char} (h : IsName word) (hrest : Stops rest) :
    firstMatch priority (word ++ rest) = some (.name, word) := by
  obtain ⟨hidentifier, hkeywords⟩ := h
  match word with
  | [] => exact hidentifier.elim
  | c :: word =>
    have hnumber : Kind.number.lexeme? (c :: word ++ rest) = none := by
      rw [lexeme?_eq rfl, if_pos]
      exact List.takeWhile_cons_of_neg (by simp [not_isDigit_of_isNameStart hidentifier.1])
    have hname : Kind.name.lexeme? (c :: word ++ rest) = some (c :: word) := by
      have hlexeme : Pattern.identifier.lexeme (c :: word ++ rest) = c :: word :=
        (if_pos hidentifier.1).trans (takeWhile_append_of_stop hidentifier.forall_mem hrest)
      rw [lexeme?_eq rfl, hlexeme, if_neg (List.cons_ne_nil _ _)]
    rw [firstMatch_of_keywordFree (hkeywords.append (List.cons_ne_nil _ _) hrest)]
    simp only [firstMatch, List.findSome?_cons, hnumber, hname, Option.map_none, Option.map_some]

/-- No keyword starts with a digit or a blank. -/
theorem keywordFree_cons {c : Char} {rest : List Char}
    (h : c.isDigit = true ∨ isBlankCharacter c = true) : KeywordFree (c :: rest) := by
  intro kind keyword hkeyword hprefix
  obtain ⟨-, -, d, hd, hdigit, hblank⟩ :=
    keywords_shape kind (mem_keywords hkeyword) keyword hkeyword
  obtain ⟨more, hmore⟩ := List.head?_eq_some_iff.1 hd
  rw [hmore, List.map_cons] at hprefix
  obtain ⟨hdc, -⟩ := List.cons_prefix_cons.1 hprefix
  rcases h with h | h
  · rw [hdc, toLower_of_isDigit h, h] at hdigit
    cases hdigit
  · rw [hdc, toLower_of_isBlankCharacter h, h] at hblank
    cases hblank

/-- A number is taken whole where no digit comes behind it. -/
theorem firstMatch_number {word rest : List Char} (h : Numeral.isNumeral word = true)
    (hrest : ∀ c ∈ rest.head?, c.isDigit = false) :
    firstMatch priority (word ++ rest) = some (.number, word) := by
  obtain ⟨hne, hdigits⟩ := Bool.and_eq_true_iff.1 h
  match word with
  | [] => cases hne
  | c :: word =>
    have hdigits := List.all_eq_true.1 hdigits
    have hnumber : Kind.number.lexeme? (c :: word ++ rest) = some (c :: word) := by
      have hlexeme : Pattern.digits.lexeme (c :: word ++ rest) = c :: word :=
        takeWhile_append_of_stop hdigits hrest
      rw [lexeme?_eq rfl, hlexeme, if_neg (List.cons_ne_nil _ _)]
    have hfree : KeywordFree (c :: (word ++ rest)) :=
      keywordFree_cons (.inl (hdigits c List.mem_cons_self))
    rw [List.cons_append, firstMatch_of_keywordFree hfree]
    simp only [firstMatch, List.findSome?_cons, ← List.cons_append, hnumber, Option.map_some]

theorem firstMatch_blank {c : Char} (h : isBlankCharacter c = true) (rest : List Char) :
    firstMatch priority (c :: rest) = some (.blank, [c]) := by
  obtain ⟨-, hstart, hdigit⟩ := isBlankCharacter_apart h
  have hnumber : Kind.number.lexeme? (c :: rest) = none := by
    rw [lexeme?_eq rfl, if_pos]
    exact List.takeWhile_cons_of_neg (by simp [hdigit])
  have hname : Kind.name.lexeme? (c :: rest) = none := by
    rw [lexeme?_eq rfl, if_pos]
    exact if_neg (by simp [hstart])
  have hblank : Kind.blank.lexeme? (c :: rest) = some [c] := by
    have hlexeme : Pattern.whitespace.lexeme (c :: rest) = [c] := if_pos h
    rw [lexeme?_eq rfl, hlexeme, if_neg (List.cons_ne_nil _ _)]
  rw [firstMatch_of_keywordFree (keywordFree_cons (.inr h))]
  simp only [firstMatch, List.findSome?_cons, hnumber, hname, hblank, Option.map_none,
    Option.map_some]

/-! ## What a taken word can be -/

section Taken

variable {text word : List Char}

theorem lexeme?_of_firstMatch {order : List Kind} {kind : Kind}
    (h : firstMatch order text = some (kind, word)) :
    kind ∈ order ∧ kind.lexeme? text = some word := by
  obtain ⟨other, hother, hfound⟩ := List.exists_of_findSome?_eq_some h
  obtain ⟨found, hlexeme, heq⟩ := Option.map_eq_some_iff.1 hfound
  obtain ⟨rfl, rfl⟩ := Prod.mk.inj heq
  exact ⟨hother, hlexeme⟩

theorem keywordFree_of_firstMatch {kind : Kind} (h : firstMatch priority text = some (kind, word))
    (hkind : kind.keyword? = none) : KeywordFree text := by
  intro other keyword hkeyword hprefix
  rw [priority_eq, firstMatch_append] at h
  cases hfound : firstMatch keywords text with
  | none =>
    have hnone := List.findSome?_eq_none_iff.1 hfound other (mem_keywords hkeyword)
    rw [lexeme?_of_keyword hkeyword hprefix] at hnone
    cases hnone
  | some found =>
    rw [hfound] at h
    obtain rfl := Option.some.inj h
    have hmem := (List.mem_filter.1 (lexeme?_of_firstMatch hfound).1).2
    rw [hkind] at hmem
    cases hmem

/-- Only names are taken for names. -/
theorem isName_of_firstMatch (h : firstMatch priority text = some (.name, word)) : IsName word := by
  have hfree := keywordFree_of_firstMatch h rfl
  obtain ⟨-, hlexeme⟩ := lexeme?_of_firstMatch h
  obtain ⟨rfl, hne⟩ := lexeme_of_lexeme? .identifier rfl hlexeme
  obtain ⟨c, rest, rfl, hstart⟩ := isNameStart_of_lexeme hne
  refine ⟨?_, fun kind keyword hkeyword hprefix => hfree kind keyword hkeyword ?_⟩
  · rw [lexeme_identifier hstart, List.takeWhile_cons_of_pos (isNameCharacter_of_isNameStart hstart)]
    exact ⟨hstart, fun d hd => List.all_eq_true.1 List.all_takeWhile d hd⟩
  · exact hprefix.trans ((Pattern.lexeme_isPrefix _ _).map _)

/-- Only numerals are taken for numbers. -/
theorem isNumeral_of_firstMatch (h : firstMatch priority text = some (.number, word)) :
    Numeral.isNumeral word = true := by
  obtain ⟨-, hlexeme⟩ := lexeme?_of_firstMatch h
  obtain ⟨rfl, hne⟩ := lexeme_of_lexeme? .digits rfl hlexeme
  have hdigits : (Pattern.digits.lexeme text).all Char.isDigit = true := List.all_takeWhile
  rw [Numeral.isNumeral, hdigits, Bool.and_true, Bool.not_eq_true', List.isEmpty_eq_false_iff]
  exact hne

end Taken

/-! ## One word after the other -/

section Scan

variable {order : List Kind} {line : Nat} {word rest : List Char}

theorem scan_nil : scan order line [] = .ok [] := by
  rw [scan]

/-- A word that is no blank gives a token. -/
theorem scan_word {kind : Kind} (h : firstMatch order (word ++ rest) = some (kind, word))
    (hkind : kind ≠ .blank) :
    scan order line (word ++ rest) =
      (scan order line rest).map (⟨kind, String.ofList word, line⟩ :: ·) := by
  obtain ⟨c, word, rfl⟩ := List.exists_cons_of_ne_nil (firstMatch_ne_nil h)
  rw [List.cons_append] at *
  rw [scan]
  split
  · next hnone => rw [h] at hnone; cases hnone
  · next found hfound =>
    rw [h] at hfound
    exact absurd (Prod.mk.inj (Option.some.inj hfound)).1 hkind
  · next found text hblank hfound =>
    rw [h] at hfound
    obtain ⟨rfl, rfl⟩ := Prod.mk.inj (Option.some.inj hfound)
    rw [← List.cons_append, List.drop_left]
    cases scan order line rest <;> rfl

/-- A blank gives no token, and a line feed starts a new line. -/
theorem scan_blank {c : Char} (h : firstMatch order (c :: rest) = some (.blank, [c])) :
    scan order line (c :: rest) = scan order (if c = '\n' then line + 1 else line) rest := by
  rw [scan]
  split
  · next hnone => rw [h] at hnone; cases hnone
  · next found hfound =>
    rw [h] at hfound
    obtain ⟨-, rfl⟩ := Prod.mk.inj (Option.some.inj hfound)
    simp only [List.cons.injEq, and_true, List.length_singleton, List.drop_succ_cons, List.drop_zero]
  · next kind found hblank hfound =>
    rw [h] at hfound
    exact absurd (Prod.mk.inj (Option.some.inj hfound)).1.symm hblank

/-- The fault that an answer is. -/
def faultOf? {α : Type} : Except Fault α → Option Fault
  | .ok _ => none
  | .error fault => some fault

/-- A fault that an answer is computed to be. -/
theorem eq_error_of_faultOf {α : Type} {answer : Except Fault α} {fault : Fault}
    (h : faultOf? answer = some fault) : answer = .error fault := by
  cases answer with
  | ok found => cases h
  | error found => exact congrArg _ (Option.some.inj h)

/-- A result that an answer is computed to have. -/
theorem eq_ok_of_toOption {α : Type} {answer : Except Fault α} {result : α}
    (h : answer.toOption = some result) : answer = .ok result := by
  cases answer with
  | error fault => cases h
  | ok found => exact congrArg _ (Option.some.inj h)

/-- Tokens that a scan is computed to find. -/
theorem scan_eq_ok_of_toOption {line : Nat} {text : List Char} {tokens : List Token}
    (h : (scan priority line text).toOption = some tokens) :
    scan priority line text = .ok tokens := eq_ok_of_toOption h

/-- Where nothing is taken the scan is stuck. -/
theorem scan_stuck {c : Char} (h : firstMatch order (c :: rest) = none) :
    scan order line (c :: rest) = .error ⟨.unknownCharacter c, line⟩ := by
  rw [scan]
  split
  · rfl
  · next hfound => rw [h] at hfound; cases hfound
  · next hfound => rw [h] at hfound; cases hfound

/-- Every token of a text was taken somewhere. -/
theorem scan_eq_ok_forall {text : List Char} {tokens : List Token}
    (h : scan order line text = .ok tokens) :
    ∀ token ∈ tokens, token.kind ≠ .blank ∧
      ∃ place, firstMatch order place = some (token.kind, token.text.toList) := by
  fun_induction scan order line text generalizing tokens with
  | case1 =>
    obtain rfl := Except.ok.inj h
    exact fun token htoken => nomatch htoken
  | case2 => cases h
  | case3 line c rest word hmatch ih => exact ih h
  | case4 => cases h
  | case5 line c rest kind word hblank hmatch more hmore ih =>
    obtain rfl := Except.ok.inj h
    refine List.forall_mem_cons.2 ⟨⟨hblank, c :: rest, ?_⟩, ih hmore⟩
    rw [String.toList_ofList]
    exact hmatch

end Scan

end Tableau.Token
