import Tableau.Proofs.Program.Reader
import Tableau.Proofs.Program.Relabel
import Tableau.Proofs.Token.Seam

/-!
# Programs one behind the other

Behind the tokens of a program the parser goes on with the next sentence as it would start with it
(`Parser.program_append`). So if further tokens follow, the tree of all is the tree of the program
with the sentences of the further tokens behind its own, and a fault in them is their own fault
(`Program.parse_append`). Tokens some lines further down have the same tree, or the same fault, that
many lines further down (`Program.parse_shift`).
-/

namespace Tableau

namespace Parser

variable {α : Type} {rest : List Token}

/-- Behind items that are read already the loop goes on as it would start. -/
theorem repeated_append {close : Token.Kind} {item : Parser α} {consumes : Consumes item}
    {spelled : α → List Token → Prop} (hitem : Reads item spelled)
    (hstart : ∀ node used, spelled node used → ∃ first others, used = first :: others ∧
      first.kind ≠ close) {items : List α} {used : List Token} (h : Repeated spelled items used)
    (hrest : ∃ next ∈ rest.head?, next.kind ≠ close) :
    repeated close item consumes (used ++ rest) =
      (repeated close item consumes rest).map fun found => (items ++ found.1, found.2) := by
  induction h with
  | @one node used hnode =>
    obtain ⟨next, hhead, hnext⟩ := hrest
    obtain ⟨others, rfl⟩ := List.head?_eq_some_iff.1 hhead
    rw [repeated_of_more (hitem.read hnode _) hnext]
    rfl
  | @more node items used used' hnode hused' ih =>
    obtain ⟨next, others, rfl, hnext⟩ := hused'.head hstart
    rw [List.append_assoc, List.cons_append, repeated_of_more (hitem.read hnode _) hnext,
      ← List.cons_append, ih]
    cases repeated close item consumes rest <;> rfl

theorem program_cons (first : Token) (others : List Token) : program (first :: others) =
    (repeated .endOfInput sentence consumes_sentence (first :: others)).bind fun found =>
      (token .endOfInput found.2).bind fun last => .ok (⟨first, found.1⟩, last.2) := rfl

/-- Behind the tokens of a program the parser goes on as it would start. -/
theorem program_append {before : Program} {used : List Token} (h : before.SpelledBy used)
    (hrest : ∃ next ∈ rest.head?, next.kind ≠ .endOfInput) :
    program (used ++ rest) = (program rest).map fun found =>
      (⟨before.token, before.sentences ++ found.1.sentences⟩, found.2) := by
  cases h with
  | @intro first sentences used hsentences =>
    have hmore : repeated .endOfInput sentence consumes_sentence (first :: used ++ rest) = _ :=
      repeated_append reads_sentence (fun _ _ h => h.start) hsentences hrest
    obtain ⟨next, hhead, -⟩ := hrest
    obtain ⟨others, rfl⟩ := List.head?_eq_some_iff.1 hhead
    rw [List.cons_append] at hmore ⊢
    rw [program_cons, program_cons, hmore]
    rcases repeated .endOfInput sentence consumes_sentence (next :: others) with _ | found
    · rfl
    · show (token .endOfInput found.2).bind _ = ((token .endOfInput found.2).bind _).map _
      rcases token .endOfInput found.2 with _ | last <;> rfl

end Parser

namespace Program

theorem endMarker_append {used more : List Token} (hmore : more ≠ []) :
    endMarker (used ++ more) = endMarker more := by
  obtain ⟨front, last, rfl⟩ := List.eq_nil_or_concat more |>.resolve_left hmore
  simp [endMarker, ← List.append_assoc]

/-- The tree of a program with further tokens behind it. -/
theorem parse_append {before : Program} {used more : List Token} (h : before.SpelledBy used)
    (hmore : more ≠ []) (hunmarked : Unmarked more) :
    parse (used ++ more) = (parse more).map fun found =>
      ⟨before.token, before.sentences ++ found.sentences⟩ := by
  obtain ⟨next, others, rfl⟩ := List.exists_cons_of_ne_nil hmore
  have hprogram : Parser.program (used ++ (next :: others ++ [endMarker (next :: others)])) = _ :=
    Parser.program_append h ⟨next, rfl, hunmarked next List.mem_cons_self⟩
  simp only [parse]
  rw [endMarker_append hmore, List.append_assoc, hprogram]
  cases Parser.program (next :: others ++ [endMarker (next :: others)]) <;> rfl

theorem faultAt_shift (lines : Nat) (token : Token) :
    faultAt (token.shift lines) = (faultAt token).shift lines := by
  unfold faultAt
  rw [show (token.shift lines).kind = token.kind from rfl]
  split <;> rfl

theorem endMarker_shift (lines : Nat) {tokens : List Token} (h : tokens ≠ []) :
    endMarker (tokens.map (Token.shift lines)) = (endMarker tokens).shift lines := by
  obtain ⟨front, last, rfl⟩ := List.eq_nil_or_concat tokens |>.resolve_left h
  simp [endMarker, Token.shift]
  omega

/-- Tokens further down have their tree or their fault further down. -/
theorem parse_shift (lines : Nat) {tokens : List Token} (h : tokens ≠ []) :
    parse (tokens.map (Token.shift lines)) =
      shiftAnswer lines (Program.map (Token.shift lines)) (parse tokens) := by
  have hmirror := Parser.mirrors_program (f := Token.shift lines) (fun _ => rfl)
    (tokens ++ [endMarker tokens])
  rw [List.map_append, List.map_singleton, ← endMarker_shift lines h] at hmirror
  simp only [parse]
  rw [hmirror]
  rcases Parser.program (tokens ++ [endMarker tokens]) with left | ⟨tree, rest⟩
  · -- Where no token is left, the fault is at the marker, which is further down as well.
    cases left with
    | nil => exact congrArg Except.error (by rw [endMarker_shift lines h]; exact faultAt_shift _ _)
    | cons first left => exact congrArg Except.error (faultAt_shift lines first)
  · rfl

/-- The last token of a program is a period. -/
theorem SpelledBy.getLast? {program : Program} {tokens : List Token}
    (h : program.SpelledBy tokens) : ∃ last ∈ tokens.getLast?, last.kind = .period := by
  cases h with
  | @intro first sentences tokens hsentences =>
    generalize first :: tokens = used at hsentences
    induction hsentences with
    | one hsentence =>
      cases hsentence with
      | intro _ hperiod => exact ⟨_, List.getLast?_concat, hperiod⟩
    | @more _ _ used others _ _ ih =>
      obtain ⟨last, hlast, hperiod⟩ := ih
      refine ⟨last, ?_, hperiod⟩
      rw [Option.mem_def] at hlast ⊢
      rw [List.getLast?_append, hlast]
      rfl

end Program

end Tableau
