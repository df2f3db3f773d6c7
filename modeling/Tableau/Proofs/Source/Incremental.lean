import Tableau.Proofs.Painting.Index
import Tableau.Proofs.Program.Continue
import Tableau.Proofs.Program.Printing

/-!
# Texts that grow

A program text can be continued directly behind its last period. The tokens of the whole are those
of the program and, as many lines further down as the program has line feeds, those of the text
behind it; so are the sentences, and so are the faults of scanning and parsing. A fault of those two
stages behind the program comes before a fault in painting the program. If there is none, the
painting goes on from where the program left it (`Source.continue_program`).
-/

namespace Tableau.Source

def lineFeeds (text : String) : Nat := text.toList.count '\n'

/-- The sentences of a text. A text without tokens has none, though it is no program. -/
def sentences (text : String) : Except Fault (List Sentence) :=
  match tokens text with
  | .error fault => .error fault
  | .ok [] => .ok []
  | .ok (first :: others) => (Program.parse (first :: others)).map Program.sentences

theorem sentences_of_tokens {text : String} {first : Token} {others : List Token}
    (h : tokens text = .ok (first :: others)) :
    sentences text = (Program.parse (first :: others)).map Program.sentences := by
  rw [sentences, h]

/-- Sentences behind a program are obeyed from where the program leaves the painting. -/
theorem paint_append (before : Program) (more : List Sentence) :
    Program.paint ⟨before.token, before.sentences ++ more⟩ =
      (Painting.blank.run before.clauses).bind fun painting =>
        (painting.run (more.flatMap (·.clauses))).map Painting.scene := by
  have hclauses : Program.clauses ⟨before.token, before.sentences ++ more⟩ =
      before.clauses ++ more.flatMap (·.clauses) := List.flatMap_append
  unfold Program.paint
  rw [hclauses, Painting.run_append]
  cases Painting.blank.run before.clauses with
  | error fault => rfl
  | ok painting =>
    show (painting.run _).bind _ = (painting.run _).map _
    cases painting.run (more.flatMap (·.clauses)) <;> rfl

section Continue

variable {p q : String} {used : List Token} {before : Program}

/-- The tokens of a text behind a program. -/
theorem tokens_append (htokens : tokens p = .ok used) (hspelled : before.SpelledBy used)
    (q : String) : tokens (p ++ q) =
      (shiftAnswer (lineFeeds p) (List.map (Token.shift (lineFeeds p))) (tokens q)).map
        (used ++ ·) := by
  have hseam : Token.Seam used q.toList := by
    obtain ⟨last, hlast, hperiod⟩ := hspelled.getLast?
    refine .inr fun token htoken => ?_
    obtain rfl : last = token := Option.some.inj (hlast.symm.trans htoken)
    rw [hperiod]
    exact ⟨by decide, by decide⟩
  unfold tokens at *
  rw [String.toList_append, Token.scan_append 1 p.toList used htokens hseam, lineFeeds,
    Token.scan_shift]

/-- The tree of a program with a text behind it. -/
theorem program_append (htokens : tokens p = .ok used) (hprogram : Program.parse used = .ok before)
    (q : String) : program (p ++ q) =
      (shiftAnswer (lineFeeds p) (List.map (Sentence.map (Token.shift (lineFeeds p))))
        (sentences q)).map fun more => ⟨before.token, before.sentences ++ more⟩ := by
  have hspelled := spelledBy_of_parse htokens hprogram
  have hwhole : program (p ++ q) = (tokens (p ++ q)).bind Program.parse := rfl
  rw [hwhole, tokens_append htokens hspelled]
  match hbehind : tokens q with
  | .error fault =>
    rw [sentences, hbehind]
    rfl
  | .ok [] =>
    -- Nothing but blanks comes behind the program, though by itself that would be no program.
    rw [sentences, hbehind]
    show Program.parse (used ++ []) = .ok ⟨before.token, before.sentences ++ []⟩
    rw [List.append_nil, List.append_nil, hprogram]
  | .ok (first :: others) =>
    have hne : (first :: others).map (Token.shift (lineFeeds p)) ≠ [] := List.cons_ne_nil _ _
    have hunmarked : Unmarked ((first :: others).map (Token.shift (lineFeeds p))) :=
      List.forall_mem_map.2 (unmarked_tokens hbehind)
    rw [sentences_of_tokens hbehind]
    show Program.parse (used ++ (first :: others).map (Token.shift (lineFeeds p))) = _
    rw [Program.parse_append hspelled hne hunmarked, Program.parse_shift _ (List.cons_ne_nil _ _)]
    cases Program.parse (first :: others) <;> rfl

/-- **Programs can be continued**: behind a program text any other text has its own tokens and its
own sentences, or fails with its own fault, the line feeds of the program further down. The whole
fails in painting as the program does, or else the painting goes on from where the program left
it. -/
theorem continue_program (htokens : tokens p = .ok used)
    (hprogram : Program.parse used = .ok before) (q : String) :
    tokens (p ++ q) =
      (shiftAnswer (lineFeeds p) (List.map (Token.shift (lineFeeds p))) (tokens q)).map
        (used ++ ·) ∧
    program (p ++ q) =
      (shiftAnswer (lineFeeds p) (List.map (Sentence.map (Token.shift (lineFeeds p))))
        (sentences q)).map (fun more => ⟨before.token, before.sentences ++ more⟩) ∧
    ∀ more, sentences q = .ok more →
      (∀ fault, scene p = .error fault → scene (p ++ q) = .error fault) ∧
      ∀ result, scene p = .ok result →
        ∃ painting, Painting.blank.run before.clauses = .ok painting ∧ painting.scene = result ∧
          scene (p ++ q) = (painting.run
            ((more.map (Sentence.map (Token.shift (lineFeeds p)))).flatMap (·.clauses))).map
              Painting.scene := by
  have hspelled := Program.parse_eq_ok.1 hprogram
  rw [Program.body_of_unmarked (unmarked_tokens htokens)] at hspelled
  have hwhole := program_append htokens hprogram q
  refine ⟨tokens_append htokens hspelled q, hwhole, fun more hmore => ?_⟩
  rw [hmore] at hwhole
  have hfirst : scene p = before.paint :=
    scene_of_program ((program_of_tokens htokens).trans hprogram)
  rw [hfirst, scene_of_program hwhole, paint_append, Program.paint]
  cases Painting.blank.run before.clauses with
  | error fault =>
    refine ⟨fun fault' hfault => ?_, fun result hresult => nomatch hresult⟩
    rw [← Except.error.inj hfault]
    rfl
  | ok painting =>
    refine ⟨?_, fun result hresult => ⟨painting, rfl, Except.ok.inj hresult, rfl⟩⟩
    exact fun fault hfault => nomatch hfault

/-- A second sentence glued to the period of the first one, which has a line feed in it. -/
theorem continue_program_of_glued_sentence :
    let p := "A is\ncircle."
    let q := "its color is red."
    let A : Token := ⟨.name, "A", 1⟩
    let circle : Token := ⟨.shape .circle, "circle", 2⟩
    let used : List Token := [A, ⟨.is, "is", 1⟩, circle, ⟨.period, ".", 2⟩]
    let before : Program := ⟨A, [⟨A, [.declare A A ⟨circle, .circle⟩]⟩]⟩
    let its : Token := ⟨.its, "its", 2⟩
    let color : Token := ⟨.attr .color, "color", 2⟩
    let red : Token := ⟨.color .red, "red", 2⟩
    let painted : Clause := .assign its (.implicit its ⟨color, .color⟩) (.color red ⟨red, .red⟩)
    tokens p = .ok used ∧ Program.parse used = .ok before ∧
      tokens (p ++ q) = .ok (used ++ [its, color, ⟨.is, "is", 2⟩, red, ⟨.period, ".", 2⟩]) ∧
      program (p ++ q) = .ok ⟨A, before.sentences ++ [⟨its, [painted]⟩]⟩ ∧
      ∃ painting, Painting.blank.run before.clauses = .ok painting ∧
        painting.scene = ⟨.blank, [.declared .circle "A"]⟩ ∧
        scene (p ++ q) = (painting.run [painted]).map Painting.scene := by
  intro p q A circle used before its color red painted
  have htokens : tokens p = .ok used := Token.scan_eq_ok_of_toOption (by decide +kernel)
  have hprogram : Program.parse used = .ok before :=
    Program.parse_eq_ok.2 (.intro (.one (.intro (.one (.declare rfl rfl rfl)) rfl)))
  -- The second sentence by itself stands on line 1.
  let its' : Token := ⟨.its, "its", 1⟩
  let color' : Token := ⟨.attr .color, "color", 1⟩
  let red' : Token := ⟨.color .red, "red", 1⟩
  let painted' : Clause := .assign its' (.implicit its' ⟨color', .color⟩) (.color red' ⟨red', .red⟩)
  have htokens' : tokens q = .ok [its', color', ⟨.is, "is", 1⟩, red', ⟨.period, ".", 1⟩] :=
    Token.scan_eq_ok_of_toOption (by decide +kernel)
  have hprogram' : Program.parse [its', color', ⟨.is, "is", 1⟩, red', ⟨.period, ".", 1⟩] =
      .ok ⟨its', [⟨its', [painted']⟩]⟩ :=
    Program.parse_eq_ok.2 (.intro (.one (.intro (.one
      (.assign (.implicit rfl rfl) rfl (.color rfl))) rfl)))
  have hmore : sentences q = .ok [⟨its', [painted']⟩] := by
    rw [sentences_of_tokens htokens', hprogram']
    rfl
  have hlines : lineFeeds p = 1 := by decide +kernel
  have hscene : scene p = .ok ⟨.blank, [.declared .circle "A"]⟩ :=
    scene_of_program ((program_of_tokens htokens).trans hprogram)
  obtain ⟨hbehind, hwhole, hpaint⟩ := continue_program htokens hprogram q
  obtain ⟨painting, hrun, hresult, hnext⟩ := (hpaint _ hmore).2 _ hscene
  rw [hlines, htokens'] at hbehind
  rw [hlines, hmore] at hwhole
  rw [hlines] at hnext
  exact ⟨htokens, hprogram, hbehind, hwhole, painting, hrun, hresult, hnext⟩

end Continue

end Tableau.Source
