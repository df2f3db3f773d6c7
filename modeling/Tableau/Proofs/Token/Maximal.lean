import Tableau.Proofs.Token.Layout
import Tableau.Proofs.Token.Seam

/-!
# Where words end

A name goes on as long as there are characters of names, and a number as long as there are digits:
in every layout of a scanned text each token is taken in front of all that comes behind it
(`Layout.Accounts.takes`). The words of a text stay what they are if they are spread out, with other
blanks before each of them and at least one between any two (`Layout.Spaced.scan`).

A text is one name from its front to its end exactly if it is an identifier that starts with no
keyword (`Token.scan_eq_name_iff`). All this together is `Source.tokens_maximal`.
-/

namespace Tableau

namespace Token

open Kind

/-- What a token says, wherever it stands. -/
def spelling (token : Token) : Kind × String := (token.kind, token.text)

/-- No name and no number goes on with blanks, and behind them only with what can go on anyway. -/
theorem stops_gap {gap rest : List Char} (hgap : ∀ c ∈ gap, isBlankCharacter c = true)
    (hrest : gap = [] → Stops rest) : Stops (gap ++ rest) := by
  cases gap with
  | nil => exact hrest rfl
  | cons c gap => exact stops_blank (hgap c List.mem_cons_self) _

section Taken

variable {line : Nat} {text word rest : List Char} {kind : Kind} {token : Token}
  {tokens : List Token}

/-- A word that is no blank does not start with one. -/
theorem Takes.head_not_blank (h : Takes kind word rest) (hkind : kind ≠ .blank) :
    ∃ c more, word = c :: more ∧ isBlankCharacter c = false := by
  obtain ⟨c, more, rfl⟩ := List.exists_cons_of_ne_nil h.ne_nil
  refine ⟨c, more, rfl, Bool.eq_false_iff.2 fun hblank => hkind ?_⟩
  -- Where a blank stands the blank is taken and nothing else.
  have hmatch := firstMatch_eq_some_iff.2 ⟨rest, rfl, h⟩
  rw [List.cons_append, firstMatch_blank hblank] at hmatch
  exact (Prod.mk.inj (Option.some.inj hmatch)).1.symm

/-- Every token of a text was taken in front of something. -/
theorem exists_takes (h : scan priority line text = .ok tokens) (htoken : token ∈ tokens) :
    token.kind ≠ .blank ∧ ∃ rest, Takes token.kind token.text.toList rest := by
  obtain ⟨hkind, place, hmatch⟩ := scan_eq_ok_forall h token htoken
  obtain ⟨rest, -, htakes⟩ := takes_of_firstMatch hmatch
  exact ⟨hkind, rest, htakes⟩

/-- If a text starts with the word of its first token, the word is taken there, and the other tokens
are those of what comes behind it. -/
theorem takes_of_scan (hword : token.text.toList = word)
    (h : scan priority line (word ++ rest) = .ok (token :: tokens)) :
    Takes token.kind word rest ∧ scan priority line rest = .ok tokens := by
  obtain ⟨hkind, place, hplace⟩ := exists_takes h List.mem_cons_self
  rw [hword] at hplace
  obtain ⟨c, more, rfl, hc⟩ := hplace.head_not_blank hkind
  rw [List.cons_append] at h
  cases hmatch : firstMatch priority (c :: (more ++ rest)) with
  | none =>
    rw [scan_stuck hmatch] at h
    cases h
  | some found =>
    obtain ⟨kind, taken⟩ := found
    obtain ⟨behind, htext, htakes⟩ := takes_of_firstMatch hmatch
    have hnotBlank : kind ≠ .blank := by
      rintro rfl
      obtain ⟨d, rfl, hblank⟩ := takes_blank htakes
      obtain ⟨rfl, -⟩ := List.cons.inj htext
      rw [hc] at hblank
      cases hblank
    rw [htext, scan_takes htakes hnotBlank] at h
    cases hbehind : scan priority line behind with
    | error fault =>
      rw [hbehind] at h
      cases h
    | ok others =>
      rw [hbehind] at h
      obtain ⟨rfl, rfl⟩ := List.cons.inj (Except.ok.inj h)
      rw [String.toList_ofList] at hword
      obtain rfl := hword
      rw [← List.cons_append] at htext
      obtain rfl := List.append_cancel_left htext
      exact ⟨htakes, hbehind⟩

/-- A text is taken whole for a name exactly if it is one. -/
theorem scan_eq_name_iff {source : String} :
    (∃ place, scan priority line source.toList = .ok [⟨.name, source, place⟩]) ↔
      IsName source.toList := by
  constructor
  · rintro ⟨place, h⟩
    obtain ⟨-, text, hmatch⟩ := scan_eq_ok_forall h _ List.mem_cons_self
    exact isName_of_firstMatch hmatch
  · intro h
    have htakes : Takes .name source.toList [] := .name h stops_nil
    have hscan := scan_takes htakes (by decide) line
    rw [List.append_nil, scan_nil, String.ofList_toList] at hscan
    exact ⟨line, hscan⟩

end Taken

end Token

namespace Layout

variable {layout : Layout} {line : Nat} {text : List Char} {tokens : List Token}

/-! ## What comes behind a word -/

/-- Everything behind the given words: those that come after them, and the trailing blanks. -/
def behind (layout : Layout) (after : List (List Char × Token)) : List Char :=
  spread after ++ layout.trailing

/-- Every name is an identifier that starts with no keyword and ends where no character of a name
comes behind it, and every number ends where no digit comes behind it. -/
def Maximal (layout : Layout) : Prop :=
  ∀ before gap token after, layout.words = before ++ (gap, token) :: after →
    (token.kind = .name → Token.IsName token.text.toList ∧ Token.Stops (layout.behind after)) ∧
      (token.kind = .number → ∀ c ∈ (layout.behind after).head?, c.isDigit = false)

theorem spread_cons_append (gap : List Char) (token : Token) (words : List (List Char × Token))
    (rest : List Char) :
    spread ((gap, token) :: words) ++ rest =
      gap ++ (token.text.toList ++ (spread words ++ rest)) := by
  simp only [spread, List.flatMap_cons, List.append_assoc]

theorem takes_of_spread {words : List (List Char × Token)} {trailing : List Char}
    (hgaps : ∀ word ∈ words, ∀ c ∈ word.1, isBlankCharacter c = true)
    (h : Token.scan Token.Kind.priority line (spread words ++ trailing) =
      .ok (words.map Prod.snd)) :
    ∀ before gap token after, words = before ++ (gap, token) :: after →
      Token.Takes token.kind token.text.toList (spread after ++ trailing) := by
  induction words generalizing line with
  | nil =>
    intro before gap token after hwords
    simp at hwords
  | cons word words ih =>
    obtain ⟨gap, token⟩ := word
    obtain ⟨hgap, hgaps⟩ := List.forall_mem_cons.1 hgaps
    rw [spread_cons_append, Token.scan_gap hgap] at h
    obtain ⟨htakes, hrest⟩ := Token.takes_of_scan rfl h
    intro before gap' token' after hwords
    cases before with
    | nil =>
      obtain ⟨hfirst, rfl⟩ := List.cons.inj hwords
      obtain ⟨rfl, rfl⟩ := Prod.mk.inj hfirst
      exact htakes
    | cons first before =>
      obtain ⟨rfl, hbehind⟩ := List.cons.inj hwords
      exact ih hgaps hrest before gap' token' after hbehind

/-- In a layout of a scanned text every token is taken in front of what comes behind it. -/
theorem Accounts.takes (h : layout.Accounts line text tokens)
    (hscan : Token.scan Token.Kind.priority line text = .ok tokens) :
    ∀ before gap token after, layout.words = before ++ (gap, token) :: after →
      Token.Takes token.kind token.text.toList (layout.behind after) := by
  rw [← h.text, ← h.tokens] at hscan
  exact takes_of_spread h.gaps hscan

theorem Accounts.maximal (h : layout.Accounts line text tokens)
    (hscan : Token.scan Token.Kind.priority line text = .ok tokens) : layout.Maximal := by
  intro before gap token after hwords
  have htakes := h.takes hscan before gap token after hwords
  refine ⟨fun hkind => ?_, fun hkind => ?_⟩
  · rw [hkind] at htakes
    cases htakes with
    | keyword hkeyword => cases hkeyword
    | name hname hstops => exact ⟨hname, hstops⟩
  · rw [hkind] at htakes
    cases htakes with
    | keyword hkeyword => cases hkeyword
    | number _ hdigit => exact hdigit

/-! ## Words spread out -/

/-- Nothing but blanks in the gaps, and at least one blank between any two words. -/
structure Spaced (layout : Layout) : Prop where
  gaps : ∀ word ∈ layout.words, ∀ c ∈ word.1, isBlankCharacter c = true
  trailing : ∀ c ∈ layout.trailing, isBlankCharacter c = true
  apart : ∀ word ∈ layout.words.tail, word.1 ≠ []

theorem Spaced.stops {word : List Char × Token} {words : List (List Char × Token)}
    {trailing : List Char} (h : Spaced ⟨word :: words, trailing⟩) :
    Token.Stops (spread words ++ trailing) := by
  cases words with
  | nil =>
    rw [spread, List.flatMap_nil, List.nil_append, ← List.append_nil trailing]
    exact Token.stops_gap h.trailing fun _ => Token.stops_nil
  | cons next words =>
    obtain ⟨gap, token⟩ := next
    have hgap := h.gaps (gap, token) (List.mem_cons_of_mem _ List.mem_cons_self)
    rw [spread_cons_append]
    exact Token.stops_gap hgap fun hnil => absurd hnil (h.apart (gap, token) List.mem_cons_self)

/-- Words of which each could be taken somewhere are the tokens of any text that has them spread
out. -/
theorem Spaced.scan {words : List (List Char × Token)} {trailing : List Char}
    (h : Spaced ⟨words, trailing⟩)
    (htakes : ∀ word ∈ words, word.2.kind ≠ .blank ∧
      ∃ rest, Token.Takes word.2.kind word.2.text.toList rest) (line : Nat) :
    ∃ found, Token.scan Token.Kind.priority line (spread words ++ trailing) = .ok found ∧
      found.map Token.spelling = words.map fun word => word.2.spelling := by
  induction words generalizing line with
  | nil =>
    have hscan := Token.scan_gap h.trailing line []
    rw [List.append_nil, Token.scan_nil] at hscan
    exact ⟨[], hscan, rfl⟩
  | cons word words ih =>
    obtain ⟨gap, token⟩ := word
    obtain ⟨hgap, hgaps⟩ := List.forall_mem_cons.1 h.gaps
    obtain ⟨⟨hkind, rest, htoken⟩, htakes⟩ := List.forall_mem_cons.1 htakes
    have hrest : Spaced ⟨words, trailing⟩ :=
      ⟨hgaps, h.trailing, fun other hother => h.apart other (List.mem_of_mem_tail hother)⟩
    obtain ⟨found, hfound, hspelling⟩ := ih hrest htakes (line + gap.count '\n')
    have htoken := htoken.extend (.inl h.stops)
    refine ⟨⟨token.kind, token.text, line + gap.count '\n'⟩ :: found, ?_, ?_⟩
    · rw [spread_cons_append, Token.scan_gap hgap, Token.scan_takes htoken hkind,
        String.ofList_toList, hfound]
      rfl
    · rw [List.map_cons, List.map_cons, hspelling]
      rfl

end Layout

/-! ## What a scan says about its words -/

namespace Source

/-- **Words are as long as they can be, and stay what they are**: in the layout of a text that has
tokens, each name and each number ends where it can go on no further, and each name is an identifier
that starts with no keyword. The words of the text spread out over another one, with blanks between
them, are the same tokens. A text is a name by itself if and only if it is such an identifier. -/
theorem tokens_maximal (source : String) :
    (∀ tokens, Source.tokens source = .ok tokens →
      (∃ layout : Layout, layout.Accounts 1 source.toList tokens) ∧
        (∀ layout : Layout, layout.Accounts 1 source.toList tokens → layout.Maximal) ∧
        ∀ layout : Layout, layout.words.map Prod.snd = tokens → layout.Spaced →
          ∃ found, Source.tokens (String.ofList (Layout.spread layout.words ++ layout.trailing)) =
            .ok found ∧ found.map Token.spelling = tokens.map Token.spelling) ∧
      ((∃ line, Source.tokens source = .ok [⟨.name, source, line⟩]) ↔
        Token.IsName source.toList) := by
  refine ⟨fun tokens htokens => ⟨?_, fun layout hlayout => hlayout.maximal htokens, ?_⟩,
    Token.scan_eq_name_iff⟩
  · exact Token.exists_layout 1 source.toList tokens htokens
  · rintro ⟨words, trailing⟩ rfl hspaced
    have htakes := fun word hword =>
      Token.exists_takes htokens (List.mem_map_of_mem (f := Prod.snd) (a := word) hword)
    obtain ⟨found, hfound, hspelling⟩ := hspaced.scan htakes 1
    rw [Source.tokens, String.toList_ofList, List.map_map]
    exact ⟨found, hfound, hspelling⟩

/-- A keyword and a number with letters behind them, and the same four words on other lines. -/
theorem tokens_maximal_of_glued_words :
    let source := "Andy\n10abc"
    let tokens : List Token := [⟨.and, "And", 1⟩, ⟨.name, "y", 1⟩, ⟨.number, "10", 2⟩,
      ⟨.name, "abc", 2⟩]
    Source.tokens source = .ok tokens ∧
      (∃ layout : Layout, layout.Accounts 1 source.toList tokens ∧ layout.Maximal) ∧
      (∃ found, Source.tokens "And y\t10\n abc\n" = .ok found ∧
        found.map Token.spelling = tokens.map Token.spelling) ∧
      Token.IsName "y10".toList ∧
      ¬ ∃ line, Source.tokens "Andy" = .ok [⟨.name, "Andy", line⟩] := by
  intro source tokens
  have htokens : Source.tokens source = .ok tokens :=
    Token.scan_eq_ok_of_toOption (by decide +kernel)
  obtain ⟨⟨layout, hlayout⟩, hmaximal, hspread⟩ := (tokens_maximal source).1 tokens htokens
  have hname : Source.tokens "y10" = .ok [⟨.name, "y10", 1⟩] :=
    Token.scan_eq_ok_of_toOption (by decide +kernel)
  have hkeyword : ¬ Token.IsName "Andy".toList := fun h =>
    h.keywordFree .and "and" rfl (by decide +kernel)
  let spread : Layout := ⟨[([], ⟨.and, "And", 1⟩), ([' '], ⟨.name, "y", 1⟩),
    (['\t'], ⟨.number, "10", 2⟩), (['\n', ' '], ⟨.name, "abc", 2⟩)], ['\n']⟩
  have hgaps : ∀ word ∈ spread.words, word.1.all isBlankCharacter = true := by decide +kernel
  have hspaced : spread.Spaced := ⟨fun word hword => List.all_eq_true.1 (hgaps word hword),
    List.forall_mem_singleton.2 (by decide), by decide +kernel⟩
  have htext : String.ofList (Layout.spread spread.words ++ spread.trailing) =
      "And y\t10\n abc\n" := by
    decide +kernel
  exact ⟨htokens, ⟨layout, hlayout, hmaximal layout hlayout⟩, htext ▸ hspread spread rfl hspaced,
    (tokens_maximal "y10").2.1 ⟨1, hname⟩, fun hwhole =>
      hkeyword ((tokens_maximal "Andy").2.1 hwhole)⟩

end Source

end Tableau
