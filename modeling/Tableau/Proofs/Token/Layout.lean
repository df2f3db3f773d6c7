import Tableau.Proofs.Token.Taken
import Tableau.Source

/-!
# Where the tokens of a text stand

A `Layout` takes a text apart: in front of every token the blanks before it, and the blanks behind
the last token. It `Accounts` for a text and its tokens if put together again it is that text, with
nothing but blanks in the gaps, every token spelled as its kind asks for, and every line the number
of line feeds in front of the token.

A text has tokens exactly if it is written in the alphabet of programs. The tokens then have a
layout, and otherwise the fault is at the first character that no program has
(`Source.tokens_lossless`).
-/

namespace Tableau

/-- What a pattern asks of a whole word. -/
def Pattern.Matches : Pattern → List Char → Prop
  | keyword spelling, word => word.map Char.toLower = spelling.toList
  | digits, word => word ≠ [] ∧ ∀ c ∈ word, c.isDigit = true
  | identifier, word => Token.IsIdentifier word
  | whitespace, word => ∃ c, word = [c] ∧ isBlankCharacter c = true

/-- The text of a token is a word of its kind. -/
def Token.WellSpelled (token : Token) : Prop :=
  token.text ≠ "" ∧ ∃ pattern, token.kind.pattern = some pattern ∧ pattern.Matches token.text.toList

/-- The first character of a text that no program has, with what stands in front of it. -/
def FirstForeign (text before : List Char) (c : Char) : Prop :=
  (∀ d ∈ before, IsProgramCharacter d) ∧ ¬ IsProgramCharacter c ∧
    ∃ after, text = before ++ c :: after

theorem FirstForeign.append {word text before : List Char} {c : Char}
    (hword : ∀ d ∈ word, IsProgramCharacter d) (h : FirstForeign text before c) :
    FirstForeign (word ++ text) (word ++ before) c := by
  obtain ⟨hbefore, hc, after, rfl⟩ := h
  exact ⟨List.forall_mem_append.2 ⟨hword, hbefore⟩, hc, after, (List.append_assoc _ _ _).symm⟩

/-- The tokens of a text with the blanks in front of each, and the blanks behind the last. -/
structure Layout where
  words : List (List Char × Token)
  trailing : List Char

namespace Layout

/-- Blanks and tokens put together again. -/
def spread (words : List (List Char × Token)) : List Char :=
  words.flatMap fun word => word.1 ++ word.2.text.toList

/-- The layout is one of the text and its tokens, if the text starts on the given line. -/
structure Accounts (layout : Layout) (line : Nat) (text : List Char) (tokens : List Token) :
    Prop where
  text : spread layout.words ++ layout.trailing = text
  tokens : layout.words.map Prod.snd = tokens
  gaps : ∀ word ∈ layout.words, ∀ c ∈ word.1, isBlankCharacter c = true
  trailing : ∀ c ∈ layout.trailing, isBlankCharacter c = true
  spelled : ∀ word ∈ layout.words, word.2.WellSpelled
  lines : ∀ before gap token after, layout.words = before ++ (gap, token) :: after →
    token.line = line + (spread before ++ gap).count '\n'

/-- One more blank in front of everything. -/
def indent (c : Char) : Layout → Layout
  | ⟨[], trailing⟩ => ⟨[], c :: trailing⟩
  | ⟨(gap, token) :: words, trailing⟩ => ⟨(c :: gap, token) :: words, trailing⟩

/-- One more token in front of everything. -/
def prepend (token : Token) (layout : Layout) : Layout :=
  ⟨([], token) :: layout.words, layout.trailing⟩

variable {layout : Layout} {line : Nat} {text : List Char} {tokens : List Token}

theorem accounts_nil : Accounts ⟨[], []⟩ line [] [] where
  text := rfl
  tokens := rfl
  gaps word hword := nomatch hword
  trailing c hc := nomatch hc
  spelled word hword := nomatch hword
  lines before gap token after h := by simp at h

theorem Accounts.indent {c : Char} (hc : isBlankCharacter c = true)
    (h : layout.Accounts (if c = '\n' then line + 1 else line) text tokens) :
    (layout.indent c).Accounts line (c :: text) tokens := by
  obtain ⟨words, trailing⟩ := layout
  cases words with
  | nil =>
    refine ⟨?_, h.tokens, h.gaps, List.forall_mem_cons.2 ⟨hc, h.trailing⟩, h.spelled, ?_⟩
    · exact congrArg (c :: ·) h.text
    · intro before gap token after hwords
      simp [Layout.indent] at hwords
  | cons word words =>
    obtain ⟨gap, token⟩ := word
    obtain ⟨hgap, hgaps⟩ := List.forall_mem_cons.1 h.gaps
    obtain ⟨htoken, hspelled⟩ := List.forall_mem_cons.1 h.spelled
    refine ⟨?_, h.tokens, List.forall_mem_cons.2 ⟨List.forall_mem_cons.2 ⟨hc, hgap⟩, hgaps⟩,
      h.trailing, List.forall_mem_cons.2 ⟨htoken, hspelled⟩, ?_⟩
    · exact congrArg (c :: ·) h.text
    · -- A line feed counts for every token, and the blank stands in front of every token.
      intro before gap' token' after hwords
      cases before with
      | nil =>
        obtain ⟨hfirst, rfl⟩ := List.cons.inj hwords
        obtain ⟨rfl, rfl⟩ := Prod.mk.inj hfirst
        rw [h.lines [] gap token words rfl]
        simp only [spread, List.flatMap_nil, List.nil_append, List.count_cons, beq_iff_eq]
        split <;> omega
      | cons first before =>
        obtain ⟨rfl, rfl⟩ := List.cons.inj hwords
        rw [h.lines ((gap, token) :: before) gap' token' after rfl]
        simp only [spread, List.flatMap_cons, List.cons_append, List.count_cons, beq_iff_eq]
        split <;> omega

theorem Accounts.prepend {token : Token} (htoken : token.WellSpelled) (hline : token.line = line)
    (hfeeds : token.text.toList.count '\n' = 0) (h : layout.Accounts line text tokens) :
    (layout.prepend token).Accounts line (token.text.toList ++ text) (token :: tokens) where
  text := by
    rw [← h.text, ← List.append_assoc]
    rfl
  tokens := congrArg (token :: ·) h.tokens
  gaps := List.forall_mem_cons.2 ⟨List.forall_mem_nil _, h.gaps⟩
  trailing := h.trailing
  spelled := List.forall_mem_cons.2 ⟨htoken, h.spelled⟩
  lines before gap token' after hwords := by
    cases before with
    | nil =>
      obtain ⟨hfirst, -⟩ := List.cons.inj hwords
      obtain ⟨rfl, rfl⟩ := Prod.mk.inj hfirst
      exact hline
    | cons first before =>
      obtain ⟨rfl, hrest⟩ := List.cons.inj hwords
      rw [h.lines before gap token' after hrest]
      simp only [spread, List.flatMap_cons, List.nil_append, List.count_append, hfeeds]
      omega

end Layout

namespace Token

open Kind

/-! ## The layout of a scanned text -/

theorem Takes.wellSpelled {kind : Kind} {word rest : List Char} (h : Takes kind word rest)
    (line : Nat) : WellSpelled ⟨kind, String.ofList word, line⟩ := by
  refine ⟨?_, ?_⟩
  · intro hempty
    exact h.ne_nil (by simpa using congrArg String.toList hempty)
  · rw [String.toList_ofList]
    cases h with
    | @keyword _ keyword _ _ hkeyword hword =>
      exact ⟨.keyword keyword, pattern_of_keyword? hkeyword, hword⟩
    | name hname _ => exact ⟨.identifier, rfl, hname.identifier⟩
    | number hnumber _ =>
      obtain ⟨hne, hdigits⟩ := Bool.and_eq_true_iff.1 hnumber
      exact ⟨.digits, rfl, by simpa using hne, List.all_eq_true.1 hdigits⟩
    | blank hblank => exact ⟨.whitespace, rfl, _, rfl, hblank⟩

/-- A text that has tokens is accounted for by a layout. -/
theorem exists_layout (line : Nat) (text : List Char) :
    ∀ tokens, scan priority line text = .ok tokens →
      ∃ layout : Layout, layout.Accounts line text tokens := by
  refine scan_induct (motive := fun line text answer => ∀ tokens, answer = .ok tokens →
    ∃ layout : Layout, layout.Accounts line text tokens) ?nil ?foreign ?blank ?word line text
  case nil =>
    rintro line tokens ⟨⟩
    exact ⟨⟨[], []⟩, Layout.accounts_nil⟩
  case foreign => exact fun line c rest _ tokens h => nomatch h
  case blank =>
    intro line c rest answer hblank ih tokens hanswer
    obtain ⟨layout, hlayout⟩ := ih tokens hanswer
    exact ⟨_, hlayout.indent hblank⟩
  case word =>
    rintro line kind word rest (fault | more) htakes hkind - ih tokens ⟨⟩
    obtain ⟨layout, hlayout⟩ := ih more rfl
    have hfeeds : (String.ofList word).toList.count '\n' = 0 := by
      rw [String.toList_ofList]
      exact htakes.count_newline hkind
    have hprepend := hlayout.prepend (htakes.wellSpelled line) rfl hfeeds
    rw [String.toList_ofList] at hprepend
    exact ⟨_, hprepend⟩

/-- A text that has tokens is written in the alphabet of programs. -/
theorem forall_isProgramCharacter (line : Nat) (text : List Char) :
    ∀ tokens, scan priority line text = .ok tokens → ∀ c ∈ text, IsProgramCharacter c := by
  refine scan_induct (motive := fun line text answer => ∀ tokens, answer = .ok tokens →
    ∀ c ∈ text, IsProgramCharacter c) ?nil ?foreign ?blank ?word line text
  case nil => exact fun line tokens _ c hc => nomatch hc
  case foreign => exact fun line c rest _ tokens h => nomatch h
  case blank =>
    intro line c rest answer hblank ih tokens hanswer
    exact List.forall_mem_cons.2 ⟨isProgramCharacter_iff.2 (.inr (.inr hblank)), ih tokens hanswer⟩
  case word =>
    rintro line kind word rest (fault | more) htakes hkind - ih tokens ⟨⟩
    exact List.forall_mem_append.2 ⟨htakes.isProgramCharacter, ih more rfl⟩

/-- A text without tokens fails at its first foreign character. -/
theorem exists_foreign (line : Nat) (text : List Char) :
    ∀ fault, scan priority line text = .error fault → ∃ before c, FirstForeign text before c ∧
      fault = ⟨.unknownCharacter c, line + before.count '\n'⟩ := by
  refine scan_induct (motive := fun line text answer => ∀ fault, answer = .error fault →
    ∃ before c, FirstForeign text before c ∧
      fault = ⟨.unknownCharacter c, line + before.count '\n'⟩) ?nil ?foreign ?blank ?word line text
  case nil => exact fun line fault h => nomatch h
  case foreign =>
    rintro line c rest hc fault ⟨⟩
    exact ⟨[], c, ⟨List.forall_mem_nil _, hc, rest, rfl⟩, rfl⟩
  case blank =>
    intro line c rest answer hblank ih fault hanswer
    obtain ⟨before, d, hforeign, rfl⟩ := ih fault hanswer
    have hc : ∀ d ∈ [c], IsProgramCharacter d :=
      List.forall_mem_singleton.2 (isProgramCharacter_iff.2 (.inr (.inr hblank)))
    refine ⟨c :: before, d, hforeign.append hc, ?_⟩
    simp only [List.count_cons, beq_iff_eq, Fault.mk.injEq, true_and]
    split <;> omega
  case word =>
    rintro line kind word rest (fault | more) htakes hkind - ih fault' ⟨⟩
    obtain ⟨before, d, hforeign, rfl⟩ := ih fault rfl
    refine ⟨word ++ before, d, hforeign.append htakes.isProgramCharacter, ?_⟩
    rw [List.count_append, htakes.count_newline hkind, Nat.zero_add]

end Token

/-! ## What a scan says about the text -/

namespace Source

/-- **Scanning loses nothing**: a text has tokens exactly if it is written in the alphabet of
programs. The text is then its tokens with blanks between them, and otherwise the fault is at the
first character that no program has. Lines are counted by the line feeds in front. -/
theorem tokens_lossless (source : String) :
    ((∃ tokens, Source.tokens source = .ok tokens) ↔ ∀ c ∈ source.toList, IsProgramCharacter c) ∧
      (∀ tokens, Source.tokens source = .ok tokens →
        ∃ layout : Layout, layout.Accounts 1 source.toList tokens) ∧
      ∀ fault, Source.tokens source = .error fault →
        ∃ before c, FirstForeign source.toList before c ∧
          fault = ⟨.unknownCharacter c, 1 + before.count '\n'⟩ := by
  refine ⟨⟨?_, ?_⟩, Token.exists_layout 1 source.toList, Token.exists_foreign 1 source.toList⟩
  · rintro ⟨tokens, htokens⟩
    exact Token.forall_isProgramCharacter 1 source.toList tokens htokens
  · intro hall
    cases hscan : Source.tokens source with
    | ok tokens => exact ⟨tokens, rfl⟩
    | error fault =>
      obtain ⟨before, c, ⟨-, hc, after, htext⟩, -⟩ := Token.exists_foreign 1 _ fault hscan
      refine absurd (hall c ?_) hc
      rw [htext]
      exact List.mem_append_right _ List.mem_cons_self

/-- Words that are glued together, on the second line, and a letter that no program has. -/
theorem tokens_lossless_of_glued_words :
    let source := "A\n ISRed10abc "
    let tokens : List Token := [⟨.name, "A", 1⟩, ⟨.is, "IS", 2⟩, ⟨.color .red, "Red", 2⟩,
      ⟨.number, "10", 2⟩, ⟨.name, "abc", 2⟩]
    let foreign := "A\n isé."
    let fault : Fault := ⟨.unknownCharacter 'é', 2⟩
    Source.tokens source = .ok tokens ∧
      (∃ layout : Layout, layout.Accounts 1 source.toList tokens) ∧
      Source.tokens foreign = .error fault ∧
      ∃ before c, FirstForeign foreign.toList before c ∧
        fault = ⟨.unknownCharacter c, 1 + before.count '\n'⟩ := by
  intro source tokens foreign fault
  have htokens : Source.tokens source = .ok tokens :=
    Token.scan_eq_ok_of_toOption (by decide +kernel)
  have hforeign : Source.tokens foreign = .error fault :=
    Token.eq_error_of_faultOf (by decide +kernel)
  exact ⟨htokens, (tokens_lossless source).2.1 tokens htokens, hforeign,
    (tokens_lossless foreign).2.2 fault hforeign⟩

end Source

end Tableau
