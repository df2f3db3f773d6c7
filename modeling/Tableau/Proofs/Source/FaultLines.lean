import Tableau.Proofs.Painting.Blame
import Tableau.Proofs.Painting.Lines
import Tableau.Proofs.Program.Printing
import Tableau.Proofs.Program.Stuck
import Tableau.Proofs.Token.Taken

/-!
# The lines of faults

A text has `lineCount` lines: a line feed ends a line, and what stands behind the last line feed is
a line too. The scan puts every token, and its fault, on one of them, and never goes back to an
earlier line (`Token.scan_withinLines`). The parser and the painting take their lines from tokens.
So a fault is on a line of the text: on that of the token that no program continues with, or of a
token of the first clause that cannot be obeyed, and then between the first and the last token of
that clause. Only where the text ends too early it can be one line further down
(`Source.located_of_scene`).
-/

namespace Tableau

/-- How many lines a text has. A line feed ends a line; behind the last one there is a line more if
there is any text. -/
def lineCount : List Char → Nat
  | [] => 0
  | c :: text => if c = '\n' then lineCount text + 1 else max 1 (lineCount text)

section LineCount

variable (c : Char) (text : List Char)

theorem lineCount_newline : lineCount ('\n' :: text) = lineCount text + 1 := if_pos rfl

theorem lineCount_cons_pos : 0 < lineCount (c :: text) := by
  rw [lineCount]
  split <;> omega

theorem lineCount_le_cons : lineCount text ≤ lineCount (c :: text) := by
  rw [lineCount]
  split <;> omega

theorem lineCount_le_append (word : List Char) : lineCount text ≤ lineCount (word ++ text) := by
  induction word with
  | nil => exact Nat.le_refl _
  | cons c word ih => exact Nat.le_trans ih (lineCount_le_cons c (word ++ text))

end LineCount

/-! ## Lines of tokens -/

namespace Token

/-- Whether the line of a token is not below that of another one. -/
def NotBelow (token other : Token) : Prop := token.line ≤ other.line

/-- Every token of the list is on a line from `low` on and before `high`, in order; or a fault of
scanning is. -/
def WithinLines (low high : Nat) : Except Fault (List Token) → Prop
  | .ok tokens =>
    (∀ token ∈ tokens, low ≤ token.line ∧ token.line < high) ∧ tokens.Pairwise NotBelow
  | .error fault => fault.stage = .scanning ∧ low ≤ fault.line ∧ fault.line < high

theorem WithinLines.mono {low high low' high' : Nat} {answer : Except Fault (List Token)}
    (h : WithinLines low high answer) (hlow : low' ≤ low) (hhigh : high ≤ high') :
    WithinLines low' high' answer := by
  cases answer with
  | error fault =>
    obtain ⟨hstage, hfrom, hto⟩ := h
    exact ⟨hstage, Nat.le_trans hlow hfrom, Nat.lt_of_lt_of_le hto hhigh⟩
  | ok tokens =>
    refine ⟨fun token htoken => ?_, h.2⟩
    obtain ⟨hfrom, hto⟩ := h.1 token htoken
    exact ⟨Nat.le_trans hlow hfrom, Nat.lt_of_lt_of_le hto hhigh⟩

/-- The scan stays on the lines of its text and goes from each to the next. -/
theorem scan_withinLines (line : Nat) (text : List Char) :
    WithinLines line (line + lineCount text) (scan Kind.priority line text) := by
  refine scan_induct (motive := fun line text answer =>
    WithinLines line (line + lineCount text) answer) ?nil ?foreign ?blank ?word line text
  case nil => exact fun line => ⟨fun token htoken => (nomatch htoken), .nil⟩
  case foreign =>
    intro line c rest _
    have hpos := lineCount_cons_pos c rest
    exact ⟨rfl, Nat.le_refl _, by show line < line + _; omega⟩
  case blank =>
    intro line c rest answer _ ih
    by_cases hc : c = '\n'
    · subst hc
      rw [if_pos rfl] at ih
      rw [lineCount_newline]
      exact ih.mono (Nat.le_succ line) (by omega)
    · rw [if_neg hc] at ih
      have hle := lineCount_le_cons c rest
      exact ih.mono (Nat.le_refl line) (by omega)
  case word =>
    rintro line kind word rest (fault | tokens) htakes - - ih
    · have hle := lineCount_le_append rest word
      exact ih.mono (Nat.le_refl line) (by omega)
    · have hle := lineCount_le_append rest word
      have hothers := ih.mono (Nat.le_refl line) (by omega : _ ≤ line + lineCount (word ++ rest))
      obtain ⟨c, others, rfl⟩ := List.exists_cons_of_ne_nil htakes.ne_nil
      have hpos := lineCount_cons_pos c (others ++ rest)
      refine ⟨List.forall_mem_cons.2 ⟨⟨Nat.le_refl line, ?_⟩, hothers.1⟩, ?_⟩
      · exact Nat.lt_add_of_pos_right hpos
      · exact .cons (fun token htoken => (ih.1 token htoken).1) hothers.2

/-- A token of a list stands between the first and the last one. -/
theorem exists_first_last {tokens : List Token} (h : tokens.Pairwise NotBelow) {token : Token}
    (hmem : token ∈ tokens) : ∃ first ∈ tokens.head?, ∃ last ∈ tokens.getLast?,
      first.line ≤ token.line ∧ token.line ≤ last.line := by
  have hfirst : ∃ first ∈ tokens.head?, first.line ≤ token.line := by
    obtain ⟨first, others, rfl⟩ := List.exists_cons_of_ne_nil (List.ne_nil_of_mem hmem)
    refine ⟨first, rfl, ?_⟩
    rcases List.mem_cons.1 hmem with rfl | hmem
    · exact Nat.le_refl _
    · exact (List.pairwise_cons.1 h).1 token hmem
  have hlast : ∃ last ∈ tokens.getLast?, token.line ≤ last.line := by
    obtain ⟨others, last, rfl⟩ :=
      (List.eq_nil_or_concat' tokens).resolve_left (List.ne_nil_of_mem hmem)
    refine ⟨last, List.getLast?_concat, ?_⟩
    rcases List.mem_append.1 hmem with hmem | hmem
    · exact (List.pairwise_append.1 h).2.2 token hmem last (List.mem_singleton_self last)
    · exact Nat.le_of_eq (congrArg Token.line (List.mem_singleton.1 hmem))
  obtain ⟨first, hfirst, hle⟩ := hfirst
  obtain ⟨last, hlast, hle'⟩ := hlast
  exact ⟨first, hfirst, last, hlast, hle, hle'⟩

end Token

/-! ## Lines of faults -/

namespace Source

/-- The line is one of the lines of the text. -/
def HasLine (source : String) (line : Nat) : Prop := 1 ≤ line ∧ line ≤ lineCount source.toList

/-- Where the fault of a text is found, and on which line that is. -/
inductive Located (source : String) (fault : Fault) : Prop
  /-- The scan fails, on a line of the text. -/
  | scanning :
    tokens source = .error fault → fault.stage = .scanning → HasLine source fault.line →
      Located source fault
  /-- The parser is stuck at a token, and the fault has its text and its line. -/
  | token {found : List Token} {position : Nat} {token : Token} :
    tokens source = .ok found → Program.parse found = .error fault →
      Program.stuckAt? found = some position → found[position]? = some token →
      fault = ⟨.unexpectedToken token.text, token.line⟩ → HasLine source fault.line →
      Located source fault
  /-- The parser is stuck behind the last token. The fault is one line further down than that token,
  or on the first line if there is none. -/
  | ending {found : List Token} :
    tokens source = .ok found → Program.parse found = .error fault →
      Program.stuckAt? found = some found.length → fault.cause = .unexpectedEnd →
      fault.line = (found.getLast?.map (·.line + 1)).getD 1 →
      1 ≤ fault.line ∧ fault.line ≤ lineCount source.toList + 1 → Located source fault
  /-- A clause cannot be obeyed, and all clauses before it can. The fault is on the line of one of
  the tokens that the clause is spelled with, between the first and the last of them. -/
  | clause {found span : List Token} {program : Program} {position : Nat} {clause : Clause}
      {painting : Painting} :
    tokens source = .ok found → Program.parse found = .ok program →
      program.paint = .error fault → fault.stage = .painting →
      program.clauses[position]? = some clause → (Token.spans found)[position]? = some span →
      clause.SpelledBy span → Painting.blank.run (program.clauses.take position) = .ok painting →
      painting.step clause = .error fault → (∃ token ∈ span, fault.line = token.line) →
      (∃ first ∈ span.head?, ∃ last ∈ span.getLast?,
        first.line ≤ fault.line ∧ fault.line ≤ last.line) →
      HasLine source fault.line → Located source fault

variable {source : String} {fault : Fault} {found : List Token}

theorem hasLine_of_tokens (h : tokens source = .ok found) :
    (∀ token ∈ found, HasLine source token.line) ∧ found.Pairwise Token.NotBelow := by
  have hwithin := Token.scan_withinLines 1 source.toList
  rw [show Token.scan Token.Kind.priority 1 source.toList = .ok found from h] at hwithin
  refine ⟨fun token htoken => ?_, hwithin.2⟩
  obtain ⟨hfrom, hto⟩ := hwithin.1 token htoken
  exact ⟨hfrom, by omega⟩

theorem located_of_tokens (h : tokens source = .error fault) : Located source fault := by
  have hwithin := Token.scan_withinLines 1 source.toList
  rw [show Token.scan Token.Kind.priority 1 source.toList = .error fault from h] at hwithin
  obtain ⟨hstage, hfrom, hto⟩ := hwithin
  exact .scanning h hstage ⟨hfrom, by omega⟩

/-- The marker stands one line behind the last token. -/
theorem endMarker_line (h : tokens source = .ok found) :
    (Program.endMarker found).line = (found.getLast?.map (·.line + 1)).getD 1 ∧
      1 ≤ (Program.endMarker found).line ∧
      (Program.endMarker found).line ≤ lineCount source.toList + 1 := by
  rw [Program.endMarker]
  cases hlast : found.getLast? with
  | none => exact ⟨rfl, Nat.le_refl 1, Nat.le_add_left 1 _⟩
  | some last =>
    obtain ⟨-, hle⟩ := (hasLine_of_tokens h).1 last (List.mem_of_getLast? hlast)
    exact ⟨rfl, Nat.le_add_left 1 _, Nat.succ_le_succ hle⟩

theorem located_of_parse (htokens : tokens source = .ok found)
    (h : Program.parse found = .error fault) : Located source fault := by
  rcases Program.parse_cases found with ⟨-, program, hok⟩ | ⟨position, token, hstuck, hat, herror⟩
  · rw [h] at hok
    cases hok
  obtain rfl := Except.error.inj (h.symm.trans herror)
  rcases Nat.lt_or_ge position found.length with hlt | hge
  · rw [List.getElem?_append_left hlt] at hat
    have hmem := List.mem_of_getElem? hat
    have hfault : Program.faultAt token = ⟨.unexpectedToken token.text, token.line⟩ :=
      if_neg (unmarked_tokens htokens token hmem)
    refine .token htokens h hstuck hat hfault ?_
    rw [hfault]
    exact (hasLine_of_tokens htokens).1 token hmem
  · -- Behind the tokens there is the marker and nothing else.
    rw [List.getElem?_append_right hge, List.getElem?_singleton] at hat
    obtain ⟨hzero, hmarker⟩ := Option.ite_none_right_eq_some.1 hat
    obtain rfl := Option.some.inj hmarker
    obtain rfl : position = found.length := by omega
    obtain ⟨hline, hrange⟩ := endMarker_line htokens
    have hfault : Program.faultAt (Program.endMarker found) =
        ⟨.unexpectedEnd, (Program.endMarker found).line⟩ := if_pos rfl
    rw [hfault] at h ⊢
    exact .ending htokens h hstuck rfl hline hrange

theorem located_of_paint {program : Program} (htokens : tokens source = .ok found)
    (hparse : Program.parse found = .ok program) (h : program.paint = .error fault) :
    Located source fault := by
  obtain ⟨hlines, hordered⟩ := hasLine_of_tokens htokens
  have hspelled := spelledBy_of_parse htokens hparse
  obtain ⟨position, clause, painting, hclause, hbefore, hstep⟩ :=
    Painting.exists_failing (Program.run_of_paint_eq_error h)
  obtain ⟨span, hspan, hclauseSpelled⟩ := hspelled.exists_span hclause
  obtain ⟨token, hkept, hline⟩ := Painting.exists_blamed hstep
  have htoken : token ∈ span := hclauseSpelled.tokens_subset hkept
  have hsublist := Token.sublist_of_mem_spans (List.mem_of_getElem? hspan)
  have hstage : fault.stage = .painting := Program.stage_of_paint h
  refine .clause htokens hparse h hstage hclause hspan hclauseSpelled hbefore hstep
    ⟨token, htoken, hline⟩ ?_ ?_
  · rw [hline]
    exact Token.exists_first_last (hordered.sublist hsublist) htoken
  · rw [hline]
    exact hlines token (hsublist.subset htoken)

/-- **Every line is usable**: the fault of a text is on a line of the text, at the token that no
program continues with or at a token of the first clause that cannot be obeyed; where the text ends
too early it is on the line behind the last token. -/
theorem located_of_scene (h : scene source = .error fault) : Located source fault := by
  cases htokens : tokens source with
  | error found =>
    rw [scene, program, htokens] at h
    obtain rfl := Except.error.inj h
    exact located_of_tokens htokens
  | ok found =>
    cases hparse : Program.parse found with
    | error found' =>
      rw [scene, program_of_tokens htokens, hparse] at h
      obtain rfl := Except.error.inj h
      exact located_of_parse htokens hparse
    | ok program =>
      rw [scene_of_program ((program_of_tokens htokens).trans hparse)] at h
      exact located_of_paint htokens hparse h

/-- A value of the wrong dimension in a sentence that goes over three lines, behind an empty line
and a line that ends with a carriage return. -/
theorem located_of_scene_of_wrong_dimension :
    let source := "A is\r\ncircle.\n\nits size\nis (1,\n2)."
    let fault : Fault := ⟨.wrongDimension .size false 1 ⟨[1, 2]⟩, 5⟩
    scene source = .error fault ∧ Located source fault ∧ lineCount source.toList = 6 := by
  intro source fault
  have hscene : scene source = .error fault := Token.eq_error_of_faultOf (by decide +kernel)
  have hlines : lineCount source.toList = 6 := by decide +kernel
  exact ⟨hscene, located_of_scene hscene, hlines⟩

end Source

end Tableau
