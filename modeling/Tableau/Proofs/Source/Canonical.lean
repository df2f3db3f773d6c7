import Tableau.Proofs.Painting.Lines
import Tableau.Proofs.Program.Printing
import Tableau.Source.RoundTrip

/-!
# The canonical text

The canonical text of a program has the words of the text in lower case, one sentence on a line:
`Token.canonical` says so of the tokens, without a tree. It has the same canonical text, and it
paints the same scene or fails with the same message (`Source.format_preserves`). So the comparison
of a program text with its canonical text finds no difference (`Source.roundTrip_eq`).
-/

namespace Tableau

/-! ## Canonical tokens -/

/-- A keyword or a mark in its one spelling, a name or a number as it is, on the given line. -/
def Token.spelledOn (line : Nat) (token : Token) : Token :=
  ⟨token.kind, token.kind.keyword?.getD token.text, line⟩

/-- The tokens as the canonical text has them, if that is on the given line. Every period ends a
line. -/
def Token.canonicalFrom (line : Nat) : List Token → List Token
  | [] => []
  | token :: tokens =>
    token.spelledOn line :: canonicalFrom (if token.kind = .period then line + 1 else line) tokens

/-- The tokens as the canonical text has them: the line is the number of the sentence. -/
def Token.canonical (tokens : List Token) : List Token := canonicalFrom 1 tokens

theorem Token.canonicalFrom_append {line : Nat} {tokens rest : List Token}
    (h : ∀ token ∈ tokens, token.kind ≠ .period) :
    canonicalFrom line (tokens ++ rest) =
      tokens.map (Token.spelledOn line) ++ canonicalFrom line rest := by
  induction tokens with
  | nil => rfl
  | cons token tokens ih =>
    obtain ⟨htoken, htokens⟩ := List.forall_mem_cons.1 h
    rw [List.cons_append, canonicalFrom, if_neg htoken, ih htokens]
    rfl

theorem Token.map_kind_canonicalFrom (line : Nat) (tokens : List Token) :
    (canonicalFrom line tokens).map kind = tokens.map kind := by
  induction tokens generalizing line with
  | nil => rfl
  | cons token tokens ih => rw [canonicalFrom, List.map_cons, List.map_cons, ih, spelledOn]

theorem Piece.Inner.kind_ne_period {piece : Piece} (h : piece.Inner) : piece.kind ≠ .period := by
  cases piece with
  | implied kind => exact h.2.2
  | kept kind token =>
    rintro rfl
    cases h

/-- A token of a program is printed as it is spelled. -/
theorem Token.printed_piece {token : Token}
    (h : token.piece.Inner ∨ token.piece = .implied .period) (line : Nat) :
    token.piece.printed line = token.spelledOn line := by
  by_cases hkept : token.kind.isKept = true
  · rw [Token.piece_of_isKept rfl hkept]
    rfl
  · rw [Token.piece_of_not_isKept rfl (Bool.eq_false_iff.2 hkept)] at h ⊢
    have hkeyword : token.kind.keyword?.isSome = true := by
      rcases h with h | h
      · exact h.2.1
      · rw [Piece.implied.inj h]
        rfl
    obtain ⟨word, hword⟩ := Option.isSome_iff_exists.1 hkeyword
    simp only [Piece.printed, Piece.kind, Piece.text, Token.spelledOn, hword, Option.getD_some]

theorem Sentence.SpelledBy.canonicalFrom {sentence : Sentence} {tokens : List Token}
    (h : sentence.SpelledBy tokens) (line : Nat) (rest : List Token) :
    Token.canonicalFrom line (tokens ++ rest) =
      sentence.yield.map (Piece.printed line) ++ Token.canonicalFrom (line + 1) rest := by
  rw [h.yield, List.map_map]
  cases h with
  | @intro first period clauses words hclauses hperiod =>
    have hwords := hclauses.yield rfl fun _ _ hclause => hclause.yield
    have hinner : ∀ token ∈ first :: words, token.piece.Inner := fun token htoken =>
      Sentence.inner ⟨first, clauses⟩ token.piece (hwords ▸ List.mem_map_of_mem htoken)
    have hspelled : (first :: words).map (Piece.printed line ∘ Token.piece) =
        (first :: words).map (Token.spelledOn line) :=
      List.map_congr_left fun token htoken => Token.printed_piece (.inl (hinner token htoken)) line
    have hlast : period.piece.printed line = period.spelledOn line :=
      Token.printed_piece (.inr (Token.piece_of_not_isKept hperiod rfl)) line
    rw [List.append_assoc, Token.canonicalFrom_append fun token htoken => by
      rw [← Token.kind_piece]
      exact (hinner token htoken).kind_ne_period]
    rw [List.map_append, hspelled, List.singleton_append, Token.canonicalFrom, if_pos hperiod,
      List.append_assoc, List.map_singleton, Function.comp_apply, hlast]
    rfl

theorem printedFrom_eq_canonicalFrom {sentences : List Sentence} {tokens : List Token}
    (h : Repeated Sentence.SpelledBy sentences tokens) (line : Nat) :
    printedFrom line sentences = Token.canonicalFrom line tokens := by
  -- The first sentence stands on the line, and the others come one line further down.
  induction h generalizing line with
  | one hsentence =>
    have hfirst := hsentence.canonicalFrom line []
    rw [List.append_nil] at hfirst
    exact hfirst.symm
  | more hsentence _ ih => rw [hsentence.canonicalFrom, printedFrom, ih]

/-- The tokens of a text are printed as its canonical tokens. -/
theorem Program.SpelledBy.canonical {program : Program} {tokens : List Token}
    (h : program.SpelledBy tokens) :
    printedFrom 1 program.sentences = Token.canonical tokens := by
  cases h with
  | intro hsentences => exact printedFrom_eq_canonicalFrom hsentences 1

/-! ## The text of a tree -/

theorem Object.source_through (object : Object) :
    (object.through .textOnly).source = object.source := by
  cases object <;> rfl

theorem Target.source_through (target : Target) :
    (target.through .textOnly).source = target.source := by
  cases target with
  | plain _ attr object | area _ attr part object =>
    simp only [Target.through, Target.source, Object.source_through]
    rfl
  | implicit | implicitArea => rfl

theorem Literal.source_through (literal : Literal) :
    (literal.through .textOnly).source = literal.source := by
  cases literal with
  | number | color => rfl
  | tuple =>
    simp only [Literal.through, Literal.source, List.map_map]
    rfl

theorem Clause.source_through (clause : Clause) :
    (clause.through .textOnly).source = clause.source := by
  cases clause with
  | declare | place => rfl
  | assign =>
    simp only [Clause.through, Clause.source, Target.source_through, Literal.source_through]

/-- Of its tokens a tree prints the texts of names and numbers only. -/
theorem Program.source_bare (program : Program) : program.bare.source = program.source := by
  have hsentence : ∀ sentence : Sentence,
      (sentence.through .textOnly).source = sentence.source := fun sentence => by
    simp only [Sentence.through, Sentence.source, List.map_map]
    congr 3
    exact funext Clause.source_through
  unfold Program.source
  rw [Program.bare, Program.through, List.map_map]
  congr 2
  exact funext hsentence

/-! ## What formatting preserves -/

namespace Source

/-- Two runs end with equal scenes, or both fail in painting with one message. -/
def PaintAlike (first second : Except Fault Scene) : Prop :=
  (∃ scene, first = .ok scene ∧ second = .ok scene) ∨
    ∃ fault fault', first = .error fault ∧ second = .error fault' ∧ fault.stage = .painting ∧
      fault'.stage = .painting ∧ fault.message = fault'.message

theorem paintAlike_of_bare {program other : Program} (h : program.bare = other.bare) :
    PaintAlike program.paint other.paint := by
  have hpaint : unplaced program.paint = unplaced other.paint := by
    rw [← program.unplaced_paint_bare, h, other.unplaced_paint_bare]
  cases hfirst : program.paint with
  | ok scene =>
    cases hsecond : other.paint with
    | ok scene' =>
      rw [hfirst, hsecond] at hpaint
      obtain rfl := Except.ok.inj hpaint
      exact .inl ⟨scene, rfl, rfl⟩
    | error fault => rw [hfirst, hsecond] at hpaint; cases hpaint
  | error fault =>
    cases hsecond : other.paint with
    | ok scene => rw [hfirst, hsecond] at hpaint; cases hpaint
    | error fault' =>
      rw [hfirst, hsecond] at hpaint
      have hcause : fault.cause = fault'.cause := Except.error.inj hpaint
      exact .inr ⟨fault, fault', rfl, rfl, Program.stage_of_paint hfirst,
        Program.stage_of_paint hsecond, congrArg Cause.message hcause⟩

section Format

variable {source : String} {tokens : List Token} {program : Program}

theorem tokens_source (htokens : Source.tokens source = .ok tokens)
    (hprogram : Program.parse tokens = .ok program) :
    Source.tokens program.source = .ok (Token.canonical tokens) := by
  rw [(printable htokens hprogram).tokens_source, (spelledBy_of_parse htokens hprogram).canonical]

/-- The canonical text has the tree of the text, but for the tokens in it. -/
theorem exists_parse_canonical (htokens : Source.tokens source = .ok tokens)
    (hprogram : Program.parse tokens = .ok program) :
    ∃ again, Program.parse (Token.canonical tokens) = .ok again ∧ again.bare = program.bare ∧
      again.source = program.source := by
  obtain ⟨again, hparse, -, hbare⟩ := (printable htokens hprogram).reparsed
  rw [(spelledBy_of_parse htokens hprogram).canonical] at hparse
  refine ⟨again, hparse, hbare, ?_⟩
  rw [← again.source_bare, hbare, program.source_bare]

theorem paintAlike_source (htokens : Source.tokens source = .ok tokens)
    (hprogram : Program.parse tokens = .ok program) :
    PaintAlike (scene source) (scene program.source) := by
  obtain ⟨again, hparse, hbare, -⟩ := exists_parse_canonical htokens hprogram
  have hfirst : scene source = program.paint :=
    scene_of_program ((program_of_tokens htokens).trans hprogram)
  have hsecond : scene program.source = again.paint :=
    scene_of_program ((program_of_tokens (tokens_source htokens hprogram)).trans hparse)
  rw [hfirst, hsecond]
  exact paintAlike_of_bare hbare.symm

end Format

/-- **Formatting preserves tokens and meaning**: the canonical text of a program has the canonical
tokens of the text, it is its own canonical text, and it paints the same scene or fails in painting
with the same message. -/
theorem format_preserves {source : String} {tokens : List Token} {program : Program}
    (htokens : Source.tokens source = .ok tokens)
    (hprogram : Program.parse tokens = .ok program) :
    Source.tokens program.source = .ok (Token.canonical tokens) ∧
      (∃ again, Source.program program.source = .ok again ∧ again.source = program.source) ∧
      PaintAlike (scene source) (scene program.source) := by
  have hcanonical := tokens_source htokens hprogram
  obtain ⟨again, hparse, -, hagain⟩ := exists_parse_canonical htokens hprogram
  exact ⟨hcanonical, ⟨again, (program_of_tokens hcanonical).trans hparse, hagain⟩,
    paintAlike_source htokens hprogram⟩

/-- Two sentences on the second line of a text, with words in capitals and words glued together. -/
theorem format_preserves_glued_words :
    let source := "\nA ISCIRCLE.itsCOLORisred."
    let A : Token := ⟨.name, "A", 2⟩
    let circle : Token := ⟨.shape .circle, "CIRCLE", 2⟩
    let its : Token := ⟨.its, "its", 2⟩
    let color : Token := ⟨.attr .color, "COLOR", 2⟩
    let red : Token := ⟨.color .red, "red", 2⟩
    let tokens : List Token := [A, ⟨.is, "IS", 2⟩, circle, ⟨.period, ".", 2⟩, its, color,
      ⟨.is, "is", 2⟩, red, ⟨.period, ".", 2⟩]
    let program : Program := ⟨A, [⟨A, [.declare A A ⟨circle, .circle⟩]⟩,
      ⟨its, [.assign its (.implicit its ⟨color, .color⟩) (.color red ⟨red, .red⟩)]⟩]⟩
    Source.tokens source = .ok tokens ∧ Program.parse tokens = .ok program ∧
      Source.tokens program.source = .ok [⟨.name, "A", 1⟩, ⟨.is, "is", 1⟩,
        ⟨.shape .circle, "circle", 1⟩, ⟨.period, ".", 1⟩, ⟨.its, "its", 2⟩,
        ⟨.attr .color, "color", 2⟩, ⟨.is, "is", 2⟩, ⟨.color .red, "red", 2⟩,
        ⟨.period, ".", 2⟩] ∧
      PaintAlike (scene source) (scene program.source) := by
  intro source A circle its color red tokens program
  have htokens : Source.tokens source = .ok tokens := by
    have hfound : (Source.tokens source).toOption = some tokens := by decide +kernel
    cases hscan : Source.tokens source with
    | error fault => rw [hscan] at hfound; cases hfound
    | ok found => rw [hscan] at hfound; exact congrArg _ (Option.some.inj hfound)
  have hfirst : Sentence.SpelledBy ⟨A, [.declare A A ⟨circle, .circle⟩]⟩
      [A, ⟨.is, "IS", 2⟩, circle, ⟨.period, ".", 2⟩] :=
    .intro (.one (.declare rfl rfl rfl)) rfl
  have hsecond : Sentence.SpelledBy
      ⟨its, [.assign its (.implicit its ⟨color, .color⟩) (.color red ⟨red, .red⟩)]⟩
      [its, color, ⟨.is, "is", 2⟩, red, ⟨.period, ".", 2⟩] :=
    .intro (.one (.assign (.implicit rfl rfl) rfl (.color rfl))) rfl
  have hprogram : Program.parse tokens = .ok program :=
    Program.parse_eq_ok.2 (.intro (.more hfirst (.one hsecond)))
  obtain ⟨hcanonical, -, houtcome⟩ := format_preserves htokens hprogram
  exact ⟨htokens, hprogram, hcanonical, houtcome⟩

/-! ## The comparison -/

theorem PaintAlike.sameOutcome {first second : Except Fault Scene} (h : PaintAlike first second) :
    sameOutcome first second = true := by
  rcases h with ⟨scene, rfl, rfl⟩ | ⟨fault, fault', rfl, rfl, -, -, hmessage⟩
  · exact decide_eq_true rfl
  · exact decide_eq_true hmessage

/-- **A program text compares equal with its canonical text**: that text is its own canonical text,
it has the same token kinds, and it ends in the same scene or with the same message. A text that is
no program has no canonical text, only its fault. -/
theorem roundTrip_eq (source : String) :
    roundTrip source = (tokens source).bind fun found =>
      (Program.parse found).map fun program =>
        ⟨program.source, program.source, found.map (·.kind), true, true⟩ := by
  cases htokens : tokens source with
  | error fault =>
    rw [roundTrip, htokens]
    rfl
  | ok found =>
    cases hprogram : Program.parse found with
    | error fault =>
      rw [roundTrip, htokens]
      show (Program.parse found >>= _) = (Program.parse found).map _
      rw [hprogram]
      rfl
    | ok program =>
      obtain ⟨again, hparse, -, hagain⟩ := exists_parse_canonical htokens hprogram
      have hcanonical := tokens_source htokens hprogram
      have hsame := (paintAlike_source htokens hprogram).sameOutcome
      have hkinds : (Token.canonical found).map (·.kind) = found.map (·.kind) :=
        Token.map_kind_canonicalFrom 1 found
      simp only [roundTrip, htokens, hprogram, hcanonical, hparse, hagain, hsame, hkinds,
        Except.bind, bind, Except.map, pure, Except.pure, decide_true]

end Source

end Tableau
