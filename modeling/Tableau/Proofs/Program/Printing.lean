import Tableau.Program.Source
import Tableau.Source
import Tableau.Proofs.Program.Grammar
import Tableau.Proofs.Token.Scan

/-!
# Printed trees

A tree is printed word by word. `Prints text pieces` says that a text scans to the words of the
pieces, if what comes behind it does not go on like a name or a number. Two such texts can be put
together if the second one starts with a blank or a mark (`Prints.append`), and so the texts of all
nodes are built from those of the words.

A tree is `Printable` if none of its lists is empty and its names and numbers are such that a text
can have. Those are the trees that survive printing and parsing (`survives_printing_iff`).
-/

namespace Tableau

open Token Token.Kind

/-! ## Words -/

namespace Piece

/-- The word as it is printed. -/
def text : Piece → String
  | implied kind => kind.keyword?.getD ""
  | kept kind token => kind.keyword?.getD token.text

/-- The token that the printed word becomes on a line. -/
def printed (line : Nat) (piece : Piece) : Token := ⟨piece.kind, piece.text, line⟩

/-- Whether a text can have the word. Keywords are printed by their kind. -/
def Printable : Piece → Prop
  | kept .name token => IsName token.text.toList
  | kept .number token => Numeral.isNumeral token.text.toList = true
  | _ => True

theorem text_of_keyword? {piece : Piece} {word : String}
    (h : piece.kind.keyword? = some word) : piece.text = word := by
  cases piece with
  | implied | kept =>
    unfold kind at h
    rw [text, h, Option.getD_some]

end Piece

/-- The text scans to the words of the pieces, whatever comes behind it, if only that does not go
on like a name. -/
def Prints (text : String) (pieces : List Piece) : Prop :=
  ∀ line rest, Stops rest → scan priority line (text.toList ++ rest) =
    (scan priority line rest).map (pieces.map (Piece.printed line) ++ ·)

/-- The text starts with a character that no name has. -/
def Breaks (text : String) : Prop :=
  ∃ c more, text.toList = c :: more ∧ isNameCharacter c = false

theorem Breaks.stops {text : String} (h : Breaks text) (rest : List Char) :
    Stops (text.toList ++ rest) := by
  obtain ⟨c, more, htext, hc⟩ := h
  rw [htext]
  exact stops_cons hc

theorem keyword?_ne_blank {kind : Kind} {word : String} (h : kind.keyword? = some word) :
    kind ≠ .blank := by
  rintro rfl
  cases h

theorem map_map_except {α : Type} (more others : List α) (answer : Except Fault (List α)) :
    (answer.map (more ++ ·)).map (others ++ ·) = answer.map (others ++ more ++ ·) := by
  cases answer with
  | error => rfl
  | ok => exact congrArg Except.ok (List.append_assoc _ _ _).symm

section Prints

variable {text text' : String} {pieces pieces' : List Piece}

theorem scan_keyword {piece : Piece} {word : String} (h : piece.kind.keyword? = some word)
    (line : Nat) (rest : List Char) :
    scan priority line (word.toList ++ rest) =
      (scan priority line rest).map ([piece.printed line] ++ ·) := by
  rw [scan_word (firstMatch_keyword h rest) (keyword?_ne_blank h), String.ofList_toList, Piece.printed,
    Piece.text_of_keyword? h]
  rfl

theorem Prints.congr (h : Prints text pieces) (htext : text'.toList = text.toList) :
    Prints text' pieces := by
  intro line rest hrest
  rw [htext, h line rest hrest]

theorem prints_keyword {piece : Piece} {word : String} (h : piece.kind.keyword? = some word) :
    Prints word [piece] := fun line rest _ => scan_keyword h line rest

theorem prints_name {name : Token} (h : IsName name.text.toList) :
    Prints name.text [.kept .name name] := by
  intro line rest hrest
  rw [scan_word (firstMatch_name h hrest) (by decide), String.ofList_toList]
  rfl

theorem prints_number {number : Token} (h : Numeral.isNumeral number.text.toList = true) :
    Prints number.text [.kept .number number] := by
  intro line rest hrest
  rw [scan_word (firstMatch_number h hrest.head_not_digit) (by decide), String.ofList_toList]
  rfl

theorem Prints.append (h : Prints text pieces) (h' : Prints text' pieces') (hbreak : Breaks text') :
    Prints (text ++ text') (pieces ++ pieces') := by
  intro line rest hrest
  rw [String.toList_append, List.append_assoc, h line _ (hbreak.stops rest), h' line rest hrest,
    map_map_except, List.map_append]

/-- A keyword may be glued to what comes behind it. -/
theorem Prints.keyword_append {piece : Piece} {word : String}
    (hword : piece.kind.keyword? = some word) (h : Prints text pieces) :
    Prints (word ++ text) (piece :: pieces) := by
  intro line rest hrest
  rw [String.toList_append, List.append_assoc, scan_keyword hword, h line rest hrest,
    map_map_except]
  rfl

theorem Prints.blank_append (h : Prints text pieces) : Prints (" " ++ text) pieces := by
  intro line rest hrest
  rw [String.toList_append, List.append_assoc]
  exact (scan_blank (firstMatch_blank (by decide) _)).trans (h line rest hrest)

theorem Prints.space (h : Prints text pieces) (h' : Prints text' pieces') :
    Prints (text ++ " " ++ text') (pieces ++ pieces') := by
  rw [String.append_assoc]
  exact h.append h'.blank_append ⟨' ', text'.toList, String.toList_append, by decide⟩

/-- Texts with a separator between any two, which may be glued to what stands behind it. -/
theorem prints_intercalate {α : Type} {separator : Kind} {between : String} {text : α → String}
    {yield : α → List Piece} {items : List α}
    (hbetween : ∀ {text pieces}, Prints text pieces →
      Prints (between ++ text) (.implied separator :: pieces))
    (hbreak : Breaks between) (hne : items ≠ [])
    (hitem : ∀ item ∈ items, Prints (text item) (yield item)) :
    Prints (between.intercalate (items.map text)) (separatedBy separator yield items) := by
  match items with
  | [] => exact absurd rfl hne
  | item :: items =>
    induction items generalizing item with
    | nil =>
      rw [separatedBy_singleton, List.map_singleton, String.intercalate_singleton]
      exact hitem item List.mem_cons_self
    | cons next items ih =>
      obtain ⟨hfirst, hmore⟩ := List.forall_mem_cons.1 hitem
      rw [separatedBy_cons_cons, List.map_cons, List.map_cons, String.intercalate_cons_cons,
        ← List.map_cons, String.append_assoc]
      refine hfirst.append (hbetween (ih next (List.cons_ne_nil _ _) hmore)) ?_
      obtain ⟨c, more, htext, hc⟩ := hbreak
      exact ⟨c, _, by rw [String.toList_append, htext]; rfl, hc⟩

end Prints

/-! ## Nodes -/

theorem Object.prints {object : Object} (h : ∀ piece ∈ object.yield, piece.Printable) :
    Prints object.source object.yield := by
  cases object with
  | shape _ name => exact prints_name (h _ List.mem_cons_self)
  | canvas => exact prints_keyword rfl

theorem Target.prints {target : Target} (h : ∀ piece ∈ target.yield, piece.Printable) :
    Prints target.source target.yield := by
  have hattr : ∀ attr : Leaf Attribute, Prints attr.kind.word [attr.piece .attr] :=
    fun attr => prints_keyword rfl
  have harea : ∀ part : Leaf Area, Prints part.kind.word [part.piece .area] :=
    fun part => prints_keyword rfl
  have hof : Prints "of" [.implied .of] := prints_keyword rfl
  have hits : Prints "its" [.implied .its] := prints_keyword rfl
  cases target with
  | plain _ attr object =>
    have hobject : Prints object.source object.yield :=
      Object.prints fun piece hpiece => h piece (by simp [Target.yield, hpiece])
    exact ((hattr attr).space (hof.space hobject)).congr (by simp [Target.source])
  | area _ attr part object =>
    have hobject : Prints object.source object.yield :=
      Object.prints fun piece hpiece => h piece (by simp [Target.yield, hpiece])
    exact ((hattr attr).space (hof.space ((harea part).space (hof.space hobject)))).congr
      (by simp [Target.source])
  | implicit _ attr => exact (hits.space (hattr attr)).congr (by simp [Target.source])
  | implicitArea _ attr part =>
    exact ((hattr attr).space (hof.space (hits.space (harea part)))).congr
      (by simp [Target.source])

theorem Literal.prints {literal : Literal} (hfull : literal.Full)
    (h : ∀ piece ∈ literal.yield, piece.Printable) : Prints literal.source literal.yield := by
  cases literal with
  | number => exact prints_number (h _ List.mem_cons_self)
  | tuple _ numbers =>
    have hcomma : ∀ {text pieces}, Prints text pieces →
        Prints (", " ++ text) (.implied .comma :: pieces) := fun htext =>
      (Prints.keyword_append rfl htext.blank_append).congr (by simp)
    have hnumber : ∀ number ∈ numbers, Prints number.text number.asNumber := by
      intro number hnumber
      refine prints_number (h (.kept .number number) ?_)
      have hmem : Piece.kept .number number ∈ separatedBy .comma Token.asNumber numbers :=
        mem_separatedBy hnumber List.mem_cons_self
      exact List.mem_cons_of_mem _ (List.mem_append_left _ hmem)
    have hlist := prints_intercalate hcomma ⟨',', [' '], rfl, by decide⟩ hfull hnumber
    have hright : Prints ")" [.implied .rightParen] := prints_keyword rfl
    have hclosed := hlist.append hright ⟨')', [], rfl, by decide⟩
    have hleft : (Piece.implied .leftParen).kind.keyword? = some "(" := rfl
    exact (hclosed.keyword_append hleft).congr (by simp [Literal.source])
  | color => exact prints_keyword rfl

theorem Clause.prints {clause : Clause} (hfull : clause.Full)
    (h : ∀ piece ∈ clause.yield, piece.Printable) : Prints clause.source clause.yield := by
  have his : Prints "is" [.implied .is] := prints_keyword rfl
  cases clause with
  | declare _ name word =>
    have hname : Prints name.text [.kept .name name] := prints_name (h _ List.mem_cons_self)
    have hword : Prints word.kind.word [word.piece .shape] := prints_keyword rfl
    exact (hname.space (his.space hword)).congr (by simp [Clause.source])
  | place _ first placement second =>
    have hfirst : Prints first.text [.kept .name first] := prints_name (h _ List.mem_cons_self)
    have hsecond : Prints second.text [.kept .name second] :=
      prints_name (h (.kept .name second) (by simp [Clause.yield]))
    have hplacement : Prints placement.kind.phrase (Placement.yield placement) := by
      obtain ⟨token, kind⟩ := placement
      cases kind with
      | front =>
        have hwithin : Prints "in" [Piece.kept .within token] := prints_keyword rfl
        have hfront : Prints "front" [.implied .front] := prints_keyword rfl
        have hof : Prints "of" [.implied .of] := prints_keyword rfl
        exact hwithin.space (hfront.space hof)
      | behind => exact prints_keyword rfl
    have hwords := hfirst.space (his.space (hplacement.space hsecond))
    rw [Clause.yield]
    exact hwords.congr (by simp [Clause.source])
  | assign _ target value =>
    have htarget : Prints target.source target.yield :=
      Target.prints fun piece hpiece => h piece (by simp [Clause.yield, hpiece])
    have hvalue : Prints value.source value.yield :=
      Literal.prints hfull fun piece hpiece => h piece (by simp [Clause.yield, hpiece])
    exact (htarget.space (his.space hvalue)).congr (by simp [Clause.source])

/-- A sentence is scanned to its words, and the next sentence starts on a new line. -/
theorem Sentence.scan_source {sentence : Sentence} (hfull : sentence.Full)
    (h : ∀ piece ∈ sentence.yield, piece.Printable) (line : Nat) (rest : List Char) :
    scan priority line (sentence.source.toList ++ rest) =
      (scan priority (line + 1) rest).map (sentence.yield.map (Piece.printed line) ++ ·) := by
  have hand : ∀ {text pieces}, Prints text pieces →
      Prints (" and " ++ text) (.implied .and :: pieces) := fun htext =>
    (Prints.keyword_append rfl htext.blank_append).blank_append.congr (by simp)
  have hclause : ∀ clause ∈ sentence.clauses, Prints clause.source clause.yield := by
    intro clause hclause
    refine Clause.prints (hfull.clauses clause hclause) fun piece hpiece => h piece ?_
    exact List.mem_append_left _ (mem_separatedBy hclause hpiece)
  have hlist := prints_intercalate hand ⟨' ', "and ".toList, rfl, by decide⟩ hfull.clauses_ne_nil
    hclause
  have hperiod : (Piece.implied .period).kind.keyword? = some "." := rfl
  have hbreak : Stops (".".toList ++ '\n' :: rest) := stops_cons (by decide)
  have htext : sentence.source.toList ++ rest =
      (" and ".intercalate (sentence.clauses.map Clause.source)).toList ++
        (".".toList ++ '\n' :: rest) := by
    simp [Sentence.source]
  rw [htext, hlist line _ hbreak, scan_keyword hperiod, scan_blank (firstMatch_blank (by decide) _),
    map_map_except, Sentence.yield, closedBy, List.map_append]
  rfl

/-- The words of sentences that stand on a line each. -/
def printedFrom : Nat → List Sentence → List Token
  | _, [] => []
  | line, sentence :: sentences =>
    sentence.yield.map (Piece.printed line) ++ printedFrom (line + 1) sentences

/-- Whether a text can have the tree: no list of it is empty, and its names and numbers are such as
texts have. -/
structure Program.Printable (program : Program) : Prop where
  full : program.Full
  words : ∀ piece ∈ program.yield, piece.Printable

theorem Program.Printable.tokens_source {program : Program} (h : program.Printable) :
    Source.tokens program.source = .ok (printedFrom 1 program.sentences) := by
  obtain ⟨⟨-, hfull⟩, hwords⟩ := h
  obtain ⟨start, sentences⟩ := program
  simp only [Source.tokens, Program.source, Program.yield] at *
  generalize 1 = line
  induction sentences generalizing line with
  | nil => rw [List.map_nil, String.join_nil, String.toList_empty]; exact scan_nil
  | cons sentence sentences ih =>
    obtain ⟨hsentence, hfull⟩ := List.forall_mem_cons.1 hfull
    rw [List.flatMap_cons, List.forall_mem_append] at hwords
    rw [List.map_cons, String.join_cons, String.toList_append,
      Sentence.scan_source hsentence hwords.1, ih hwords.2 hfull]
    rfl

/-! ## Printed words are read back -/

/-- A printed word looks like the word, if only the texts of names and numbers are looked at. -/
theorem Piece.through_printed {piece : Piece} (h : piece.Inner ∨ piece = .implied .period)
    (line : Nat) :
    (piece.printed line).piece.through .textOnly = piece.through .textOnly := by
  cases piece with
  | implied kind =>
    have hkept : kind.isKept = false := by
      rcases h with h | h
      · exact h.1
      · rw [Piece.implied.inj h]
        rfl
    rw [Token.piece_of_not_isKept rfl hkept]
    rfl
  | kept kind token =>
    have hkept : kind.isKept = true := by
      rcases h with h | h
      · exact h
      · cases h
    rw [Token.piece_of_isKept rfl hkept]
    cases kind with
    | name | number => rfl
    | _ => rfl

theorem map_printedFrom {α : Type} {f : Token → α} {g : Piece → α}
    (hinner : ∀ piece : Piece, piece.Inner ∨ piece = .implied .period →
      ∀ line, f (piece.printed line) = g piece) (line : Nat) (sentences : List Sentence) :
    (printedFrom line sentences).map f = (sentences.flatMap Sentence.yield).map g := by
  induction sentences generalizing line with
  | nil => rfl
  | cons sentence sentences ih =>
    rw [printedFrom, List.map_append, ih, List.flatMap_cons, List.map_append, List.map_map]
    congr 1
    exact List.map_congr_left fun piece hpiece =>
      hinner piece (sentence.inner_or_period piece hpiece) line

theorem Source.unmarked_tokens {source : String} {tokens : List Token}
    (h : Source.tokens source = .ok tokens) : Unmarked tokens := by
  intro token htoken hkind
  obtain ⟨-, place, hplace⟩ := scan_eq_ok_forall h token htoken
  have hmem := (lexeme?_of_firstMatch hplace).1
  rw [hkind] at hmem
  exact absurd hmem (by decide)

/-- The tokens of a text are a spelling of its tree. -/
theorem Source.spelledBy_of_parse {source : String} {tokens : List Token} {tree : Program}
    (h : Source.tokens source = .ok tokens) (hparse : Program.parse tokens = .ok tree) :
    tree.SpelledBy tokens := by
  have hspelled := Program.parse_eq_ok.1 hparse
  rwa [Program.body_of_unmarked (Source.unmarked_tokens h)] at hspelled

/-- The words that the tree of a text has can be printed. -/
theorem Source.printable_of_tokens {source : String} {tokens : List Token}
    (h : Source.tokens source = .ok tokens) :
    ∀ piece ∈ tokens.map Token.piece, piece.Printable := by
  intro piece hpiece
  obtain ⟨token, htoken, rfl⟩ := List.mem_map.1 hpiece
  obtain ⟨-, place, hplace⟩ := scan_eq_ok_forall h token htoken
  by_cases hname : token.kind = .name
  · rw [Token.piece_of_isKept hname rfl]
    rw [hname] at hplace
    exact isName_of_firstMatch hplace
  · by_cases hnumber : token.kind = .number
    · rw [Token.piece_of_isKept hnumber rfl]
      rw [hnumber] at hplace
      exact isNumeral_of_firstMatch hplace
    · unfold Token.piece
      split
      · unfold Piece.Printable
        split
        · next heq => exact absurd (Piece.kept.inj heq).1 hname
        · next heq => exact absurd (Piece.kept.inj heq).1 hnumber
        · trivial
      · trivial

theorem Piece.printable_through {piece : Piece} :
    (piece.through .textOnly).Printable ↔ piece.Printable := by
  cases piece with
  | implied => exact Iff.rfl
  | kept kind token =>
    cases kind with
    | _ => exact Iff.rfl

theorem Program.Printable.reparsed {program : Program} (h : program.Printable) :
    ∃ tree, Program.parse (printedFrom 1 program.sentences) = .ok tree ∧
      tree.yield = (printedFrom 1 program.sentences).map Token.piece ∧ tree.bare = program.bare := by
  have hkinds : (printedFrom 1 program.sentences).map Token.kind =
      program.yield.map Piece.kind := map_printedFrom (fun _ _ _ => rfl) 1 _
  have hbare : ((printedFrom 1 program.sentences).map Token.piece).map (Piece.through .textOnly) =
      program.yield.map (Piece.through .textOnly) := by
    rw [List.map_map]
    exact map_printedFrom (fun piece hpiece line => Piece.through_printed hpiece line) 1 _
  have hunmarked := Source.unmarked_tokens h.tokens_source
  obtain ⟨tree, htree⟩ := exists_program (show Phrase.Derives _ _ from hkinds ▸ h.full.derives)
  have hyield := htree.yield
  rw [← Program.body_of_unmarked hunmarked] at htree
  exact ⟨tree, Program.parse_eq_ok.2 htree, hyield, Program.through_eq_of_yield_eq (hyield ▸ hbare)⟩

/-- The tree of a text is printable. -/
theorem Source.printable {source : String} {tokens : List Token} {tree : Program}
    (h : Source.tokens source = .ok tokens) (hparse : Program.parse tokens = .ok tree) :
    tree.Printable := by
  have hspelled := Source.spelledBy_of_parse h hparse
  exact ⟨hspelled.full, hspelled.yield ▸ Source.printable_of_tokens h⟩

theorem Source.printable_of_program {source : String} {tree : Program}
    (h : Source.program source = .ok tree) : tree.Printable := by
  cases htokens : Source.tokens source with
  | error fault =>
    unfold Source.program at h
    rw [htokens] at h
    cases h
  | ok tokens =>
    rw [Source.program_of_tokens htokens] at h
    exact Source.printable htokens h

/-- The words of a clause of a printable tree can be printed. -/
theorem Program.Printable.clause_words {program : Program} (h : program.Printable) {clause : Clause}
    (hclause : clause ∈ program.clauses) : ∀ piece ∈ clause.yield, piece.Printable := by
  obtain ⟨sentence, hsentence, hmem⟩ := List.mem_flatMap.1 hclause
  intro piece hpiece
  refine h.words piece (List.mem_flatMap.2 ⟨sentence, hsentence, ?_⟩)
  exact List.mem_append_left _ (mem_separatedBy hmem hpiece)

theorem Program.printable_bare {program other : Program} (h : program.bare = other.bare) :
    program.Printable → other.Printable := by
  rintro ⟨hfull, hwords⟩
  have hyield : program.yield.map (Piece.through .textOnly) =
      other.yield.map (Piece.through .textOnly) := by
    rw [← Program.yield_through, ← Program.yield_through]
    exact congrArg Program.yield h
  have hbare : program.bare.Full := Program.full_through.2 hfull
  rw [h] at hbare
  refine ⟨Program.full_through.1 hbare, fun piece hpiece => ?_⟩
  have hmem := List.mem_map_of_mem (f := Piece.through .textOnly) hpiece
  rw [← hyield] at hmem
  obtain ⟨piece', hpiece', heq⟩ := List.mem_map.1 hmem
  rw [← Piece.printable_through, ← heq, Piece.printable_through]
  exact hwords piece' hpiece'

/-- **The trees that survive printing**: the text of a tree scans and parses to that tree again, up
to the tokens of its nodes, exactly if the tree is printable. -/
theorem Program.survives_printing_iff (program : Program) :
    (∃ tokens tree, Source.tokens program.source = .ok tokens ∧ Program.parse tokens = .ok tree ∧
      tree.bare = program.bare) ↔ program.Printable := by
  constructor
  · rintro ⟨tokens, tree, htokens, htree, hbare⟩
    exact Program.printable_bare hbare (Source.printable htokens htree)
  · intro h
    obtain ⟨tree, htree, -, hbare⟩ := h.reparsed
    exact ⟨_, tree, h.tokens_source, htree, hbare⟩

end Tableau
