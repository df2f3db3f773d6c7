import Tableau.Proofs.Token.Taken
import Tableau.Source

/-!
# Texts one behind the other

A text that starts some lines further down has its tokens, or its fault, that many lines further
down (`scan_shift`). Two texts one behind the other have the tokens of both, the second ones as many
lines further down as the first text has line feeds (`scan_append`). The one thing that can go wrong
at the seam is that a name or a number goes on; it cannot if the second text starts with another
character, or if the tokens of the first text end with a keyword. A fault of the first text is a
fault of the whole, whatever comes behind it (`scan_append_error`).

With a blank between them any two texts can be scanned apart (`Source.tokens_at_blank`).
-/

namespace Tableau

/-- The same token some lines further down. -/
def Token.shift (lines : Nat) (token : Token) : Token := { token with line := token.line + lines }

/-- An answer some lines further down: what was found moves as it is said, and a fault by its
line. -/
def shiftAnswer {α : Type} (lines : Nat) (move : α → α) : Except Fault α → Except Fault α
  | .ok found => .ok (move found)
  | .error fault => .error (fault.shift lines)

namespace Token

open Kind

theorem scan_shift (lines line : Nat) (text : List Char) :
    scan priority (line + lines) text =
      shiftAnswer lines (List.map (shift lines)) (scan priority line text) := by
  refine scan_induct (motive := fun line text answer => scan priority (line + lines) text =
    shiftAnswer lines (List.map (shift lines)) answer) ?nil ?foreign ?blank ?word line text
  case nil => exact fun line => scan_nil
  case foreign => exact fun line c rest hc => scan_stuck (firstMatch_eq_none_iff.2 hc)
  case blank =>
    intro line c rest answer hblank ih
    rw [scan_blank (firstMatch_blank hblank rest), ← ih]
    congr 1
    split
    · omega
    · rfl
  case word =>
    intro line kind word rest answer htakes hkind _ ih
    rw [scan_takes htakes hkind, ih]
    cases answer <;> rfl

/-- Nothing goes on from the tokens of a text to the text behind it. -/
def Seam (tokens : List Token) (more : List Char) : Prop :=
  Stops more ∨ ∀ last ∈ tokens.getLast?, last.kind ≠ .name ∧ last.kind ≠ .number

theorem scan_append {more : List Char} (line : Nat) (text : List Char) :
    ∀ tokens, scan priority line text = .ok tokens → Seam tokens more →
      scan priority line (text ++ more) =
        (scan priority (line + text.count '\n') more).map (tokens ++ ·) := by
  refine scan_induct (motive := fun line text answer => ∀ tokens, answer = .ok tokens →
    Seam tokens more → scan priority line (text ++ more) =
      (scan priority (line + text.count '\n') more).map (tokens ++ ·))
    ?nil ?foreign ?blank ?word line text
  case nil =>
    rintro line tokens ⟨⟩ -
    rw [List.nil_append, List.count_nil, Nat.add_zero]
    cases scan priority line more <;> rfl
  case foreign => exact fun line c rest _ tokens h => nomatch h
  case blank =>
    intro line c rest answer hblank ih tokens hanswer hseam
    rw [List.cons_append, scan_blank (firstMatch_blank hblank _), ih tokens hanswer hseam]
    congr 2
    simp only [List.count_cons, beq_iff_eq]
    split <;> omega
  case word =>
    rintro line kind word rest (fault | others) htakes hkind hscan ih tokens ⟨⟩ hseam
    have htakes' : Takes kind word (rest ++ more) := by
      cases rest with
      | cons c rest => exact htakes.append (List.cons_ne_nil _ _) more
      | nil =>
        -- The word is the last one, and its token is the last one too.
        rw [scan_nil] at hscan
        obtain rfl := Except.ok.inj hscan
        exact htakes.extend (hseam.imp_right fun hlast => hlast _ rfl)
    have hseam' : Seam others more := by
      refine hseam.imp_right fun hlast last hmem => hlast last ?_
      rw [Option.mem_def] at hmem
      simp only [List.getLast?_cons, hmem, Option.getD_some, Option.mem_def]
    rw [List.append_assoc, scan_takes htakes' hkind, ih others rfl hseam', List.count_append,
      htakes.count_newline hkind, Nat.zero_add]
    cases scan priority (line + rest.count '\n') more <;> rfl

/-- A text that is stuck is stuck at the same place when more comes behind it. -/
theorem scan_append_error (more : List Char) (line : Nat) (text : List Char) :
    ∀ fault, scan priority line text = .error fault →
      scan priority line (text ++ more) = .error fault := by
  refine scan_induct (motive := fun line text answer => ∀ fault, answer = .error fault →
    scan priority line (text ++ more) = .error fault) ?nil ?foreign ?blank ?word line text
  case nil => exact fun line fault h => nomatch h
  case foreign =>
    rintro line c rest hc fault ⟨⟩
    exact scan_stuck (firstMatch_eq_none_iff.2 hc)
  case blank =>
    intro line c rest answer hblank ih fault hanswer
    rw [List.cons_append, scan_blank (firstMatch_blank hblank _)]
    exact ih fault hanswer
  case word =>
    rintro line kind word rest (fault | others) htakes hkind hscan ih fault' ⟨⟩
    -- The fault is behind the word, so the word is not the last thing of the text.
    have hrest : rest ≠ [] := by
      rintro rfl
      rw [scan_nil] at hscan
      cases hscan
    rw [List.append_assoc, scan_takes (htakes.append hrest more) hkind, ih fault rfl]
    rfl

/-- Blanks in front of a text only count its lines. -/
theorem scan_gap {gap : List Char} (hgap : ∀ c ∈ gap, isBlankCharacter c = true) (line : Nat)
    (text : List Char) :
    scan priority line (gap ++ text) = scan priority (line + gap.count '\n') text := by
  induction gap generalizing line with
  | nil => rfl
  | cons c gap ih =>
    obtain ⟨hc, hgap⟩ := List.forall_mem_cons.1 hgap
    rw [List.cons_append, scan_blank (firstMatch_blank hc _), ih hgap]
    congr 1
    simp only [List.count_cons, beq_iff_eq]
    split <;> omega

/-- No name and no number goes on with a blank. -/
theorem stops_blank {c : Char} (h : isBlankCharacter c = true) (text : List Char) :
    Stops (c :: text) :=
  stops_cons (isBlankCharacter_apart h).1

end Token

namespace Source

/-- **Scanning goes apart at a blank**: of two texts with a blank between them the tokens are those
of the first and, as many lines further down as there are line feeds before it, those of the second.
A fault of the first text is the fault of the whole, and otherwise one of the second is, with its
line counted in the same way. -/
theorem tokens_at_blank (p q : String) (c : Char) (h : isBlankCharacter c = true) :
    let lines := (p.toList ++ [c]).count '\n'
    tokens (p ++ String.singleton c ++ q) =
      match tokens p, tokens q with
      | .error fault, _ => .error fault
      | .ok _, .error fault => .error (fault.shift lines)
      | .ok front, .ok back => .ok (front ++ back.map (Token.shift lines)) := by
  intro lines
  have htext : (p ++ String.singleton c ++ q).toList = p.toList ++ ([c] ++ q.toList) := by
    simp only [String.toList_append, String.toList_singleton, List.append_assoc]
  have hbehind : Token.scan Token.Kind.priority (1 + p.toList.count '\n') ([c] ++ q.toList) =
      shiftAnswer lines (List.map (Token.shift lines)) (tokens q) := by
    have hlines : 1 + p.toList.count '\n' + [c].count '\n' = 1 + lines := by
      rw [Nat.add_assoc, ← List.count_append]
    rw [Token.scan_gap (List.forall_mem_singleton.2 h), hlines, Token.scan_shift, tokens]
  have hwhole : tokens (p ++ String.singleton c ++ q) =
      Token.scan Token.Kind.priority 1 (p.toList ++ ([c] ++ q.toList)) := congrArg _ htext
  rw [hwhole]
  cases hp : tokens p with
  | error fault => exact Token.scan_append_error _ 1 _ fault hp
  | ok front =>
    have hseam : Token.Seam front ([c] ++ q.toList) := .inl (Token.stops_blank h _)
    rw [Token.scan_append 1 _ front hp hseam, hbehind]
    cases tokens q <;> rfl

/-- A name and a keyword that would run together, on two lines, and a letter that no program has on
the third. -/
theorem tokens_at_blank_of_line_feed :
    let p := "A\nis an"
    let q := "d red"
    let foreign := "\né"
    isBlankCharacter '\n' = true ∧
      tokens (p ++ String.singleton '\n' ++ q) = .ok [⟨.name, "A", 1⟩, ⟨.is, "is", 2⟩,
        ⟨.name, "an", 2⟩, ⟨.name, "d", 3⟩, ⟨.color .red, "red", 3⟩] ∧
      tokens (p ++ String.singleton '\n' ++ foreign) = .error ⟨.unknownCharacter 'é', 4⟩ ∧
      tokens (foreign ++ String.singleton '\n' ++ p) = .error ⟨.unknownCharacter 'é', 2⟩ := by
  intro p q foreign
  have hblank : isBlankCharacter '\n' = true := by decide
  have hp : tokens p = .ok [⟨.name, "A", 1⟩, ⟨.is, "is", 2⟩, ⟨.name, "an", 2⟩] :=
    Token.scan_eq_ok_of_toOption (by decide +kernel)
  have hq : tokens q = .ok [⟨.name, "d", 1⟩, ⟨.color .red, "red", 1⟩] :=
    Token.scan_eq_ok_of_toOption (by decide +kernel)
  have hforeign : tokens foreign = .error ⟨.unknownCharacter 'é', 2⟩ :=
    Token.eq_error_of_faultOf (by decide +kernel)
  have hlines : (p.toList ++ ['\n']).count '\n' = 2 := by decide +kernel
  have hok := tokens_at_blank p q '\n' hblank
  have hsecond := tokens_at_blank p foreign '\n' hblank
  have hfirst := tokens_at_blank foreign p '\n' hblank
  rw [hp, hq, hlines] at hok
  rw [hp, hforeign, hlines] at hsecond
  rw [hforeign] at hfirst
  exact ⟨hblank, hok, hsecond, hfirst⟩

end Source

end Tableau
