import Tableau.Proofs.Token.Scan

/-!
# What is taken where

`Takes kind word rest` says in which cases the word in front of the rest becomes a token of the
kind, or a blank. Of the rest it looks at the first character only, and only behind a name or a
number. The scan takes exactly those words (`firstMatch_eq_some_iff`), so a word that is not the
last one is taken also when the text is made longer (`Takes.append`).

A program text has a small alphabet (`IsProgramCharacter`). Every word is written in it
(`Takes.forall_mem`), and at every character of it a word is taken; so the scan is stuck exactly at
the other characters (`firstMatch_eq_none_iff`).
-/

namespace Tableau

/-! ## The alphabet -/

/-- The characters of program texts: the letters and digits of ASCII, the underscore, four marks,
and space, tab, line feed, carriage return, vertical tab and form feed. -/
def IsProgramCharacter (c : Char) : Prop :=
  ('a' ≤ c ∧ c ≤ 'z') ∨ ('A' ≤ c ∧ c ≤ 'Z') ∨ ('0' ≤ c ∧ c ≤ '9') ∨
    c ∈ ['_', '(', ')', '.', ',', ' ', '\t', '\n', '\r', '\x0b', '\x0c']

/-- The characters that are keywords by themselves. -/
def isMark (c : Char) : Bool := c ∈ ['(', ')', '.', ',']

theorem isProgramCharacter_iff {c : Char} : IsProgramCharacter c ↔
    isNameCharacter c = true ∨ isMark c = true ∨ isBlankCharacter c = true := by
  unfold IsProgramCharacter isNameCharacter isMark isBlankCharacter Char.isAlphanum Char.isAlpha
    Char.isUpper Char.isLower Char.isDigit
  simp only [Char.le_def, ge_iff_le, Bool.or_eq_true, Bool.and_eq_true, decide_eq_true_eq,
    List.mem_cons, List.not_mem_nil, or_false]
  grind only

theorem IsProgramCharacter.isAscii {c : Char} (h : IsProgramCharacter c) : c.toNat < 128 := by
  have hupto : ∀ {last : Char}, c ≤ last → last.toNat < 128 → c.toNat < 128 :=
    fun hle hlast => Nat.lt_of_le_of_lt hle hlast
  rcases h with h | h | h | h
  · exact hupto h.2 (by decide)
  · exact hupto h.2 (by decide)
  · exact hupto h.2 (by decide)
  · have hmarks : ['_', '(', ')', '.', ',', ' ', '\t', '\n', '\r', '\x0b', '\x0c'].all
        (·.toNat < 128) = true := by decide
    exact of_decide_eq_true (List.all_eq_true.1 hmarks c h)

namespace Token

open Kind

/-! ## Words -/

/-- The word in front of the rest is taken as a token of the kind, or as a blank. -/
inductive Takes : Kind → List Char → List Char → Prop
  /-- A keyword in any letter case, whatever comes behind it. -/
  | keyword {kind : Kind} {keyword : String} {word rest : List Char} :
    kind.keyword? = some keyword → word.map Char.toLower = keyword.toList → Takes kind word rest
  | name {word rest : List Char} : IsName word → Stops rest → Takes .name word rest
  | number {word rest : List Char} : Numeral.isNumeral word = true →
    (∀ c ∈ rest.head?, c.isDigit = false) → Takes .number word rest
  | blank {c : Char} {rest : List Char} : isBlankCharacter c = true → Takes .blank [c] rest

theorem head?_dropWhile {p : Char → Bool} (text : List Char) :
    ∀ c ∈ (text.dropWhile p).head?, p c = false := by
  intro c hc
  have hhead := List.head?_dropWhile_not p text
  rw [Option.mem_def] at hc
  rwa [hc] at hhead

theorem lexeme_whitespace {c : Char} {rest : List Char} (h : isBlankCharacter c = true) :
    Pattern.whitespace.lexeme (c :: rest) = [c] := if_pos h

/-- What covers something as a blank starts with one. -/
theorem isBlankCharacter_of_lexeme {text : List Char} (h : Pattern.whitespace.lexeme text ≠ []) :
    ∃ c rest, text = c :: rest ∧ isBlankCharacter c = true := by
  match text with
  | [] => exact absurd rfl h
  | c :: rest =>
    by_cases hblank : isBlankCharacter c = true
    · exact ⟨c, rest, rfl, hblank⟩
    · exact absurd (if_neg hblank) h

section Takes

variable {kind : Kind} {text word rest : List Char}

/-- What a keyword covers is taken. -/
theorem takes_of_keyword {keyword : String} (hkeyword : kind.keyword? = some keyword)
    (h : kind.lexeme? text = some word) : ∃ rest, text = word ++ rest ∧ Takes kind word rest := by
  by_cases hprefix : keyword.toList <+: text.map Char.toLower
  · rw [lexeme?_of_keyword hkeyword hprefix] at h
    obtain rfl := Option.some.inj h
    refine ⟨text.drop keyword.toList.length, (List.take_append_drop _ _).symm, .keyword hkeyword ?_⟩
    rw [List.map_take, ← List.prefix_iff_eq_take.1 hprefix]
  · rw [lexeme?_of_keyword_eq_none hkeyword hprefix] at h
    cases h

theorem takes_of_firstMatch (h : firstMatch priority text = some (kind, word)) :
    ∃ rest, text = word ++ rest ∧ Takes kind word rest := by
  obtain ⟨hmem, hlexeme⟩ := lexeme?_of_firstMatch h
  cases hkeyword : kind.keyword? with
  | some keyword => exact takes_of_keyword hkeyword hlexeme
  | none =>
    -- Without a keyword the kind is one of the last three.
    rw [priority_eq, List.mem_append] at hmem
    rcases hmem with hmem | hmem
    · have hsome := (List.mem_filter.1 hmem).2
      rw [hkeyword] at hsome
      cases hsome
    · simp only [List.mem_cons, List.not_mem_nil, or_false] at hmem
      rcases hmem with rfl | rfl | rfl
      · have hnumeral := isNumeral_of_firstMatch h
        obtain ⟨rfl, -⟩ := lexeme_of_lexeme? .digits rfl hlexeme
        exact ⟨text.dropWhile Char.isDigit, List.takeWhile_append_dropWhile.symm,
          .number hnumeral (head?_dropWhile text)⟩
      · have hname := isName_of_firstMatch h
        obtain ⟨rfl, hne⟩ := lexeme_of_lexeme? .identifier rfl hlexeme
        obtain ⟨c, behind, rfl, hstart⟩ := isNameStart_of_lexeme hne
        rw [lexeme_identifier hstart] at hname ⊢
        exact ⟨(c :: behind).dropWhile isNameCharacter, List.takeWhile_append_dropWhile.symm,
          .name hname (head?_dropWhile _)⟩
      · obtain ⟨rfl, hne⟩ := lexeme_of_lexeme? .whitespace rfl hlexeme
        obtain ⟨c, behind, rfl, hblank⟩ := isBlankCharacter_of_lexeme hne
        rw [lexeme_whitespace hblank]
        exact ⟨behind, rfl, .blank hblank⟩

/-- The scan takes exactly the words that are to be taken. -/
theorem firstMatch_eq_some_iff : firstMatch priority text = some (kind, word) ↔
    ∃ rest, text = word ++ rest ∧ Takes kind word rest := by
  constructor
  · exact takes_of_firstMatch
  · rintro ⟨rest, rfl, htakes⟩
    cases htakes with
    | keyword hkeyword hword => exact firstMatch_spelled hkeyword hword rest
    | name hname hstops => exact firstMatch_name hname hstops
    | number hnumber hdigit => exact firstMatch_number hnumber hdigit
    | blank hblank => exact firstMatch_blank hblank rest

/-- A word that is taken in front of something is taken when more comes behind that. -/
theorem Takes.append (h : Takes kind word rest) (hrest : rest ≠ []) (more : List Char) :
    Takes kind word (rest ++ more) := by
  obtain ⟨c, rest, rfl⟩ := List.exists_cons_of_ne_nil hrest
  cases h with
  | keyword hkeyword hword => exact .keyword hkeyword hword
  | name hname hstops => exact .name hname hstops
  | number hnumber hdigit => exact .number hnumber hdigit
  | blank hblank => exact .blank hblank

/-- A word that is taken is taken in front of everything that stops it, and a word that is no name
and no number in front of everything. -/
theorem Takes.extend (h : Takes kind word rest) {more : List Char}
    (hmore : Stops more ∨ kind ≠ .name ∧ kind ≠ .number) : Takes kind word more := by
  cases h with
  | keyword hkeyword hword => exact .keyword hkeyword hword
  | name hname _ =>
    rcases hmore with hstops | ⟨hne, -⟩
    · exact .name hname hstops
    · exact absurd rfl hne
  | number hnumber _ =>
    rcases hmore with hstops | ⟨-, hne⟩
    · exact .number hnumber hstops.head_not_digit
    · exact absurd rfl hne
  | blank hblank => exact .blank hblank

/-! ## The characters of words -/

theorem keywords_characters : ∀ kind ∈ keywords, ∀ keyword ∈ kind.keyword?,
    keyword.toList.all (fun c => isNameCharacter c || isMark c) = true := by
  decide +kernel

/-- A word that is no blank is written in letters, digits, underscores and marks. -/
theorem Takes.forall_mem (h : Takes kind word rest) (hkind : kind ≠ .blank) :
    ∀ c ∈ word, isNameCharacter c = true ∨ isMark c = true := by
  intro c hc
  cases h with
  | @keyword _ keyword _ _ hkeyword hword =>
    have hmem : c.toLower ∈ keyword.toList := hword ▸ List.mem_map_of_mem hc
    have hkeyword := keywords_characters kind (mem_keywords hkeyword) keyword hkeyword
    have hlower := Bool.or_eq_true_iff.1 (List.all_eq_true.1 hkeyword _ hmem)
    by_cases hupper : c.isUpper = true
    · left
      unfold isNameCharacter Char.isAlphanum Char.isAlpha
      rw [hupper, Bool.true_or, Bool.true_or, Bool.true_or]
    · rwa [toLower_of_not_isUpper (Bool.eq_false_iff.2 hupper)] at hlower
  | name hname _ => exact .inl (hname.identifier.forall_mem c hc)
  | number hnumber _ =>
    obtain ⟨-, hdigits⟩ := Bool.and_eq_true_iff.1 hnumber
    exact .inl (isNameCharacter_of_isDigit (List.all_eq_true.1 hdigits c hc))
  | blank => exact absurd rfl hkind

theorem Takes.isProgramCharacter (h : Takes kind word rest) :
    ∀ c ∈ word, IsProgramCharacter c := by
  intro c hc
  rw [isProgramCharacter_iff]
  by_cases hkind : kind = .blank
  · cases h with
    | @keyword _ keyword _ _ hkeyword =>
      subst hkind
      cases hkeyword
    | name | number => cases hkind
    | blank hblank =>
      obtain rfl := List.mem_singleton.1 hc
      exact .inr (.inr hblank)
  · rcases h.forall_mem hkind c hc with hname | hmark
    · exact .inl hname
    · exact .inr (.inl hmark)

/-- Every word is written in ASCII. -/
theorem Takes.forall_ascii (h : Takes kind word rest) : ∀ c ∈ word, c.toNat < 128 :=
  fun c hc => (h.isProgramCharacter c hc).isAscii

/-- No word but a blank has a line feed. -/
theorem Takes.count_newline (h : Takes kind word rest) (hkind : kind ≠ .blank) :
    word.count '\n' = 0 := by
  rw [List.count_eq_zero]
  intro hmem
  exact absurd (h.forall_mem hkind _ hmem) (by decide)

theorem Takes.ne_nil (h : Takes kind word rest) : word ≠ [] :=
  firstMatch_ne_nil (firstMatch_eq_some_iff.2 ⟨rest, rfl, h⟩)

end Takes

/-! ## Where nothing is taken -/

theorem firstMatch_ne_none {order : List Kind} (kind : Kind) {text : List Char}
    (hkind : kind ∈ order) (h : kind.lexeme? text ≠ none) : firstMatch order text ≠ none := by
  intro hnone
  exact h (Option.map_eq_none_iff.1 (List.findSome?_eq_none_iff.1 hnone kind hkind))

/-- The scan is stuck exactly at the characters that no program has. -/
theorem firstMatch_eq_none_iff {c : Char} {rest : List Char} :
    firstMatch priority (c :: rest) = none ↔ ¬ IsProgramCharacter c := by
  constructor
  · intro hnone hc
    refine absurd hnone ?_
    rcases isProgramCharacter_iff.1 hc with hname | hmark | hblank
    · by_cases hdigit : c.isDigit = true
      · refine firstMatch_ne_none .number (by decide) (lexeme?_ne_none rfl ?_)
        rw [Pattern.lexeme, List.takeWhile_cons_of_pos hdigit]
        exact List.cons_ne_nil _ _
      · have hstart : isNameStart c = true := by
          unfold isNameCharacter Char.isAlphanum at hname
          rwa [Bool.eq_false_iff.2 hdigit, Bool.or_false] at hname
        refine firstMatch_ne_none .name (by decide) (lexeme?_ne_none rfl ?_)
        rw [lexeme_identifier hstart, List.takeWhile_cons_of_pos hname]
        exact List.cons_ne_nil _ _
    · have hword : ∃ kind : Kind, kind.keyword? = some (String.singleton c) := by
        simp only [isMark, decide_eq_true_eq, List.mem_cons, List.not_mem_nil, or_false] at hmark
        rcases hmark with rfl | rfl | rfl | rfl
        · exact ⟨.leftParen, rfl⟩
        · exact ⟨.rightParen, rfl⟩
        · exact ⟨.period, rfl⟩
        · exact ⟨.comma, rfl⟩
      obtain ⟨kind, hkind⟩ := hword
      rw [show c :: rest = (String.singleton c).toList ++ rest by simp, firstMatch_keyword hkind]
      exact Option.some_ne_none _
    · rw [firstMatch_blank hblank]
      exact Option.some_ne_none _
  · intro hc
    cases hfound : firstMatch priority (c :: rest) with
    | none => rfl
    | some found =>
      obtain ⟨kind, word⟩ := found
      obtain ⟨behind, htext, htakes⟩ := takes_of_firstMatch hfound
      obtain ⟨first, word, rfl⟩ := List.exists_cons_of_ne_nil htakes.ne_nil
      obtain ⟨rfl, -⟩ := List.cons.inj htext
      exact absurd (htakes.isProgramCharacter c List.mem_cons_self) hc

/-! ## Induction along the scan -/

/-- A blank is taken by itself. -/
theorem takes_blank {word rest : List Char} (h : Takes .blank word rest) :
    ∃ c, word = [c] ∧ isBlankCharacter c = true := by
  cases h with
  | keyword hkeyword => cases hkeyword
  | blank hblank => exact ⟨_, rfl, hblank⟩

/-- A word that is taken gives a token. -/
theorem scan_takes {kind : Kind} {word rest : List Char} (h : Takes kind word rest)
    (hkind : kind ≠ .blank) (line : Nat) : scan priority line (word ++ rest) =
      (scan priority line rest).map (⟨kind, String.ofList word, line⟩ :: ·) :=
  scan_word (firstMatch_eq_some_iff.2 ⟨rest, rfl, h⟩) hkind

/-- What holds of every text and its answer, from the end of the text to its front: of the empty
text, where the scan is stuck, in front of a blank and in front of a word. -/
theorem scan_induct {motive : Nat → List Char → Except Fault (List Token) → Prop}
    (nil : ∀ line, motive line [] (.ok []))
    (foreign : ∀ line c rest, ¬ IsProgramCharacter c →
      motive line (c :: rest) (.error ⟨.unknownCharacter c, line⟩))
    (blank : ∀ line c rest answer, isBlankCharacter c = true →
      motive (if c = '\n' then line + 1 else line) rest answer → motive line (c :: rest) answer)
    (word : ∀ line kind word rest answer, Takes kind word rest → kind ≠ .blank →
      scan priority line rest = answer → motive line rest answer →
      motive line (word ++ rest) (answer.map (⟨kind, String.ofList word, line⟩ :: ·)))
    (line : Nat) (text : List Char) : motive line text (scan priority line text) := by
  induction text using (measure List.length).wf.induction generalizing line with
  | _ text ih =>
    cases text with
    | nil => exact scan_nil ▸ nil line
    | cons c rest =>
      cases hmatch : firstMatch priority (c :: rest) with
      | none =>
        rw [scan_stuck hmatch]
        exact foreign line c rest (firstMatch_eq_none_iff.1 hmatch)
      | some found =>
        obtain ⟨kind, taken⟩ := found
        obtain ⟨behind, htext, htakes⟩ := takes_of_firstMatch hmatch
        have hshort : behind.length < (c :: rest).length := by
          have hpos := List.length_pos_iff.2 htakes.ne_nil
          rw [htext, List.length_append]
          omega
        by_cases hkind : kind = .blank
        · subst hkind
          obtain ⟨d, rfl, hblank⟩ := takes_blank htakes
          obtain ⟨rfl, rfl⟩ := List.cons.inj htext
          rw [scan_blank hmatch]
          exact blank line c rest _ hblank (ih rest hshort _)
        · rw [htext, scan_takes htakes hkind]
          exact word line kind taken behind _ htakes hkind rfl (ih behind hshort line)

end Token

end Tableau
