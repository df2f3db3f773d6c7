import Mathlib.Data.List.Basic
import Mathlib.Data.List.TakeWhile
import Tableau.Proofs.Token.Taken
import Tableau.Source

/-!
# The order of the kinds

The scan tries the kinds of tokens in an order. Two kinds that cover something at the same place are
a keyword and the kind of names, or they are the same (`Token.eq_or_name`). So the order matters only
between these two: any other order of the same kinds gives every text the same tokens, or the same
fault, if and only if all keywords that are written in letters come before names
(`Source.scan_eq_tokens_iff`).
-/

namespace Tableau

namespace Token

open Kind

/-! ## Which kinds cover something at the same place -/

/-- Whether the kind has a keyword that is written in letters. -/
def Kind.isWord (kind : Kind) : Bool := kind.keyword?.any fun word => word.toList.all Char.isAlpha

/-- The kind without a keyword that covers something that starts with the character, if one does. -/
def Kind.ofFirst? (c : Char) : Option Kind :=
  if c.isDigit then some .number
  else if isNameStart c then some .name
  else if isBlankCharacter c then some .blank
  else none

/-- A keyword that starts like a name is written in letters. -/
theorem isWord_of_isNameStart {kind : Kind} {word : String} {c : Char}
    (h : kind.keyword? = some word) (hc : c ∈ word.toList.head?) (hstart : isNameStart c = true) :
    kind.isWord = true := by
  have hcheck : ∀ kind ∈ keywords, ∀ word ∈ kind.keyword?,
      word.toList.head?.any isNameStart = true → kind.isWord = true := by
    decide +kernel
  exact hcheck kind (mem_keywords h) word h ((Option.any_eq_true _ _).2 ⟨c, hc, hstart⟩)

section Cover

variable {kind other : Kind} {c : Char} {text word rest : List Char}

/-- A kind without a keyword is told by the first character of what it covers. -/
theorem exists_ofFirst? (hkeyword : kind.keyword? = none) (h : kind.lexeme? text ≠ none) :
    ∃ c rest, text = c :: rest ∧ ofFirst? c = some kind := by
  have hmem : kind ∈ keywords ++ [.number, .name, .blank] := by
    rw [← priority_eq, mem_priority_iff]
    intro hpattern
    exact h (by rw [lexeme?, hpattern])
  obtain ⟨word, hlexeme⟩ := Option.ne_none_iff_exists'.1 h
  rcases List.mem_append.1 hmem with hmem | hmem
  · have hsome := (List.mem_filter.1 hmem).2
    rw [hkeyword] at hsome
    cases hsome
  · simp only [List.mem_cons, List.not_mem_nil, or_false] at hmem
    rcases hmem with rfl | rfl | rfl
    · obtain ⟨rfl, hne⟩ := lexeme_of_lexeme? .digits rfl hlexeme
      cases text with
      | nil => exact absurd rfl hne
      | cons c rest =>
        have hdigit : c.isDigit = true := by
          by_contra hnot
          exact hne (List.takeWhile_cons_of_neg hnot)
        exact ⟨c, rest, rfl, if_pos hdigit⟩
    · obtain ⟨rfl, hne⟩ := lexeme_of_lexeme? .identifier rfl hlexeme
      obtain ⟨c, rest, rfl, hstart⟩ := isNameStart_of_lexeme hne
      refine ⟨c, rest, rfl, ?_⟩
      rw [ofFirst?, not_isDigit_of_isNameStart hstart, hstart]
      rfl
    · obtain ⟨rfl, hne⟩ := lexeme_of_lexeme? .whitespace rfl hlexeme
      obtain ⟨c, rest, rfl, hblank⟩ := isBlankCharacter_of_lexeme hne
      refine ⟨c, rest, rfl, ?_⟩
      obtain ⟨-, hstart, hdigit⟩ := isBlankCharacter_apart hblank
      rw [ofFirst?, hdigit, hstart, hblank]
      rfl

theorem keyword_of_lexeme? {keyword : String} (hkeyword : kind.keyword? = some keyword)
    (h : kind.lexeme? text ≠ none) : keyword.toList <+: text.map Char.toLower := by
  by_contra hprefix
  exact h (lexeme?_of_keyword_eq_none hkeyword hprefix)

/-- Two kinds with a keyword that cover something at the same place are the same. -/
theorem eq_of_keywords {keyword keyword' : String} (hkeyword : kind.keyword? = some keyword)
    (hkeyword' : other.keyword? = some keyword') (h : kind.lexeme? text ≠ none)
    (h' : other.lexeme? text ≠ none) : kind = other := by
  have hmem := mem_keywords hkeyword
  have hmem' := mem_keywords hkeyword'
  rcases List.prefix_or_prefix_of_prefix (keyword_of_lexeme? hkeyword h)
    (keyword_of_lexeme? hkeyword' h') with hprefix | hprefix
  · exact keywords_prefixFree kind hmem keyword hkeyword other hmem' keyword' hkeyword' hprefix
  · exact (keywords_prefixFree other hmem' keyword' hkeyword' kind hmem keyword hkeyword
      hprefix).symm

/-- If a kind with a keyword and a kind without one cover something at the same place, the keyword
is written in letters and the other kind is that of names. -/
theorem isWord_and_eq_name {keyword : String} (hkeyword : kind.keyword? = some keyword)
    (hother : other.keyword? = none) (h : kind.lexeme? text ≠ none)
    (h' : other.lexeme? text ≠ none) : kind.isWord = true ∧ other = .name := by
  obtain ⟨c, rest, rfl, hfirst⟩ := exists_ofFirst? hother h'
  have hprefix := keyword_of_lexeme? hkeyword h
  unfold ofFirst? at hfirst
  split at hfirst
  · next hdigit => exact absurd hprefix (keywordFree_cons (.inl hdigit) kind keyword hkeyword)
  · split at hfirst
    · next hstart =>
      refine ⟨?_, (Option.some.inj hfirst).symm⟩
      obtain ⟨-, -, d, hd, -⟩ := keywords_shape kind (mem_keywords hkeyword) keyword hkeyword
      obtain ⟨more, hmore⟩ := List.head?_eq_some_iff.1 hd
      rw [hmore, List.map_cons, List.cons_prefix_cons] at hprefix
      obtain ⟨rfl, -⟩ := hprefix
      exact isWord_of_isNameStart hkeyword hd (isNameStart_toLower hstart)
    · split at hfirst
      · next hblank => exact absurd hprefix (keywordFree_cons (.inr hblank) kind keyword hkeyword)
      · cases hfirst

/-- Two kinds that cover something at the same place are the same, unless one has a keyword that is
written in letters and the other one is the kind of names. -/
theorem eq_or_name (h : kind.lexeme? text ≠ none) (h' : other.lexeme? text ≠ none) :
    other = kind ∨ kind.isWord = true ∧ other = .name ∨ other.isWord = true ∧ kind = .name := by
  cases hkeyword : kind.keyword? with
  | some keyword =>
    cases hkeyword' : other.keyword? with
    | some keyword' => exact .inl (eq_of_keywords hkeyword hkeyword' h h').symm
    | none => exact .inr (.inl (isWord_and_eq_name hkeyword hkeyword' h h'))
  | none =>
    cases hkeyword' : other.keyword? with
    | some keyword' => exact .inr (.inr (isWord_and_eq_name hkeyword' hkeyword h' h))
    | none =>
      obtain ⟨c, rest, rfl, hfirst⟩ := exists_ofFirst? hkeyword h
      obtain ⟨d, rest', htext, hfirst'⟩ := exists_ofFirst? hkeyword' h'
      obtain ⟨rfl, rfl⟩ := List.cons.inj htext
      exact .inl (Option.some.inj (hfirst'.symm.trans hfirst))

end Cover

/-! ## Other orders -/

/-- Every keyword that is written in letters is tried before names are. -/
def NamesLast (order : List Kind) : Prop :=
  ∀ kind : Kind, kind.isWord = true → order.idxOf kind < order.idxOf .name

section Order

variable {order : List Kind} {kind : Kind} {text word : List Char}

theorem idxOf_lt_of_mem {before after : List Kind} {other : Kind} (hother : other ∈ before)
    (hkind : kind ∉ before) :
    (before ++ kind :: after).idxOf other < (before ++ kind :: after).idxOf kind := by
  have hlt := List.idxOf_lt_length_iff.2 hother
  rw [List.idxOf_append_of_mem hother, List.idxOf_append_of_notMem hkind]
  omega

/-- With names behind the keywords the order does not matter at any place of a text. -/
theorem firstMatch_eq_priority (h : order.Perm priority) (hlast : NamesLast order)
    (text : List Char) : firstMatch order text = firstMatch priority text := by
  cases hmatch : firstMatch priority text with
  | none =>
    refine List.findSome?_eq_none_iff.2 fun kind hkind => ?_
    exact List.findSome?_eq_none_iff.1 hmatch kind (h.mem_iff.1 hkind)
  | some found =>
    obtain ⟨kind, word⟩ := found
    obtain ⟨hmem, hword⟩ := lexeme?_of_firstMatch hmatch
    obtain ⟨before, after, rfl, hnot⟩ := List.eq_append_cons_of_mem (h.mem_iff.2 hmem)
    refine firstMatch_append_cons (fun other hother => ?_) hword
    by_contra hcovers
    have hkind : kind.lexeme? text ≠ none := by
      rw [hword]
      exact Option.some_ne_none _
    rcases eq_or_name hkind hcovers with rfl | ⟨hisWord, rfl⟩ | ⟨hisWord, rfl⟩
    · exact hnot hother
    · -- The keyword is tried before names, and names before the keyword.
      exact Nat.lt_asymm (hlast kind hisWord) (idxOf_lt_of_mem hother hnot)
    · -- The text starts with a keyword, so no name is taken there.
      obtain ⟨keyword, hkeyword, -⟩ := (Option.any_eq_true _ _).1 hisWord
      exact keywordFree_of_firstMatch hmatch rfl other keyword hkeyword
        (keyword_of_lexeme? hkeyword hcovers)

theorem scan_eq_priority (h : ∀ text, firstMatch order text = firstMatch priority text)
    (line : Nat) (text : List Char) : scan order line text = scan priority line text := by
  refine scan_induct (motive := fun line text answer => scan order line text = answer)
    ?nil ?foreign ?blank ?word line text
  case nil => exact fun line => scan_nil
  case foreign =>
    intro line c rest hc
    exact scan_stuck ((h _).trans (firstMatch_eq_none_iff.2 hc))
  case blank =>
    intro line c rest answer hblank ih
    rw [scan_blank ((h _).trans (firstMatch_blank hblank rest)), ih]
  case word =>
    intro line kind word rest answer htakes hkind _ ih
    rw [scan_word ((h _).trans (firstMatch_eq_some_iff.2 ⟨rest, rfl, htakes⟩)) hkind, ih]

/-- A keyword that is written in letters could be a name. -/
theorem lexeme?_name_of_isAlpha {keyword : String} (hkeyword : kind.keyword? = some keyword)
    (hletters : keyword.toList.all Char.isAlpha = true) :
    Kind.name.lexeme? keyword.toList = some keyword.toList := by
  obtain ⟨-, -, c, hc, -⟩ := keywords_shape kind (mem_keywords hkeyword) keyword hkeyword
  obtain ⟨rest, hcons⟩ := List.head?_eq_some_iff.1 hc
  have hstart : ∀ d ∈ keyword.toList, isNameStart d = true := fun d hd => by
    unfold isNameStart
    rw [List.all_eq_true.1 hletters d hd, Bool.true_or]
  have hlexeme : Pattern.identifier.lexeme keyword.toList = keyword.toList := by
    rw [hcons] at hstart ⊢
    rw [lexeme_identifier (hstart c List.mem_cons_self), List.takeWhile_eq_self_iff]
    exact fun d hd => isNameCharacter_of_isNameStart (hstart d hd)
  rw [lexeme?_eq rfl, hlexeme, if_neg (hcons ▸ List.cons_ne_nil c rest)]

/-- Where names are tried before a keyword that is written in letters, the keyword is taken for a
name. -/
theorem firstMatch_word (h : order.Perm priority) {keyword : String}
    (hkeyword : kind.keyword? = some keyword) (hletters : keyword.toList.all Char.isAlpha = true)
    (hlate : order.idxOf .name ≤ order.idxOf kind) :
    firstMatch order keyword.toList = some (.name, keyword.toList) := by
  have hname := lexeme?_name_of_isAlpha hkeyword hletters
  have hcovered : Kind.name.lexeme? keyword.toList ≠ none := by
    rw [hname]
    exact Option.some_ne_none _
  have hkind : kind.lexeme? keyword.toList ≠ none := by
    have hlower := (keywords_shape kind (mem_keywords hkeyword) keyword hkeyword).1
    rw [lexeme?_of_keyword hkeyword (hlower.symm ▸ List.prefix_rfl)]
    exact Option.some_ne_none _
  have hmem : Kind.name ∈ order := h.mem_iff.2 (by decide)
  obtain ⟨before, after, rfl, hnot⟩ := List.eq_append_cons_of_mem hmem
  refine firstMatch_append_cons (fun other hother => ?_) hname
  by_contra hcovers
  rcases eq_or_name hcovered hcovers with rfl | ⟨hisWord, -⟩ | ⟨hisWord, -⟩
  · exact hnot hother
  · cases hisWord
  · -- No other keyword starts there, so it is the keyword itself that is tried before names.
    obtain ⟨keyword', hkeyword', -⟩ := (Option.any_eq_true _ _).1 hisWord
    obtain rfl := eq_of_keywords hkeyword' hkeyword hcovers hkind
    exact Nat.not_lt.2 hlate (idxOf_lt_of_mem hother hnot)

end Order

end Token

namespace Source

open Token.Kind

/-- **The order of the kinds has to keep names behind the keywords, and nothing else**: another
order of the same kinds gives every text the same tokens, or the same fault, if and only if it tries
every keyword that is written in letters before names. -/
theorem scan_eq_tokens_iff {order : List Token.Kind} (h : order.Perm priority) :
    (∀ source : String, Token.scan order 1 source.toList = tokens source) ↔
      Token.NamesLast order := by
  constructor
  · intro hscan kind hisWord
    by_contra hlate
    obtain ⟨keyword, hkeyword, hletters⟩ := (Option.any_eq_true _ _).1 hisWord
    have hname : Token.firstMatch order (keyword.toList ++ []) = some (.name, keyword.toList) := by
      rw [List.append_nil]
      exact Token.firstMatch_word h hkeyword hletters (Nat.le_of_not_lt hlate)
    have hword := Token.firstMatch_keyword hkeyword []
    have hkind : kind ≠ .blank := by
      rintro rfl
      cases hkeyword
    have hsame := hscan keyword
    rw [tokens, ← List.append_nil keyword.toList, Token.scan_word hname (by decide),
      Token.scan_word hword hkind, Token.scan_nil, Token.scan_nil] at hsame
    obtain ⟨htoken, -⟩ := List.cons.inj (Except.ok.inj hsame)
    obtain rfl : Token.Kind.name = kind := congrArg Token.kind htoken
    cases hkeyword
  · intro hlast source
    exact Token.scan_eq_priority (Token.firstMatch_eq_priority h hlast) 1 source.toList

/-- An order that has the keywords backwards and blanks in front, and one that tries names first. -/
theorem scan_eq_tokens_iff_of_reversed :
    let order := .blank :: .number :: keywords.reverse ++ [.name]
    let eager := .name :: keywords ++ [.number, .blank]
    order.Perm priority ∧ Token.NamesLast order ∧
      (∀ source : String, Token.scan order 1 source.toList = tokens source) ∧
      eager.Perm priority ∧ ¬ Token.NamesLast eager ∧
      ¬ ∀ source : String, Token.scan eager 1 source.toList = tokens source := by
  intro order eager
  have hperm : order.Perm priority := by decide +kernel
  have hlast : Token.NamesLast order := by
    have hcheck : ∀ kind ∈ keywords, order.idxOf kind < order.idxOf .name := by decide +kernel
    intro kind hisWord
    obtain ⟨keyword, hkeyword, -⟩ := (Option.any_eq_true _ _).1 hisWord
    exact hcheck kind (Token.mem_keywords hkeyword)
  have hperm' : eager.Perm priority := by decide +kernel
  have hfirst : ¬ Token.NamesLast eager := fun h => absurd (h .canvas (by decide)) (by decide)
  exact ⟨hperm, hlast, (scan_eq_tokens_iff hperm).2 hlast, hperm', hfirst,
    fun hscan => hfirst ((scan_eq_tokens_iff hperm').1 hscan)⟩

end Source

end Tableau
