import Tableau.Proofs.Program.Reader
import Tableau.Proofs.Program.Skeleton

/-!
# The grammar

`Phrase.rule` is the grammar of the language as data, in extended Backus–Naur form over the kinds of
tokens, and `Derives phrase kinds` says that a phrase derives a list of kinds. It knows nothing of
trees or of lookahead.

* What a tree yields can be derived, if the tree has no empty list (`Program.Full.derives`).
* What can be derived is spelled by a tree (`exists_program`).

With `Program.parse_eq_ok` it follows that the parser accepts what the grammar derives, and that its
answer is the only tree with the words of the text (`parse_decides_grammar`).
-/

namespace Tableau

/-! ## Phrases -/

/-- The variables of the grammar. -/
inductive Symbol
  | program
  | sentence
  | clause
  | target
  | object
  | literal
  | placement
  | attribute
  | area
  | shape
  | color
deriving DecidableEq, Repr

/-- The right side of a rule. -/
inductive Phrase
  | word (kind : Token.Kind)
  | symbol (symbol : Symbol)
  | seq (first second : Phrase)
  | alt (first second : Phrase)
  /-- The phrase any number of times, one behind the other. -/
  | many (phrase : Phrase)
deriving Repr

namespace Phrase

instance : Append Phrase := ⟨seq⟩

instance : OrOp Phrase := ⟨alt⟩

/-- A phrase, and the same again behind every separator. -/
def listed (separator : Token.Kind) (phrase : Phrase) : Phrase :=
  phrase ++ many (word separator ++ phrase)

/-- The rules of the grammar. -/
def rule : Symbol → Phrase
  | .program => listed .period (symbol .sentence) ++ word .period
  | .sentence => listed .and (symbol .clause)
  | .clause =>
    word .name ++ word .is ++ symbol .shape |||
    word .name ++ word .is ++ symbol .placement ++ word .name |||
    symbol .target ++ word .is ++ symbol .literal
  | .target =>
    word .its ++ symbol .attribute |||
    symbol .attribute ++ word .of ++ word .its ++ symbol .area |||
    symbol .attribute ++ word .of ++ symbol .area ++ word .of ++ symbol .object |||
    symbol .attribute ++ word .of ++ symbol .object
  | .object => word .name ||| word .canvas
  | .literal =>
    word .number |||
    word .leftParen ++ listed .comma (word .number) ++ word .rightParen |||
    symbol .color
  | .placement => word .within ++ word .front ++ word .of ||| word .behind
  | .attribute => word (.attr .position) ||| word (.attr .size) ||| word (.attr .color)
  | .area => word (.area .border)
  | .shape =>
    word (.shape .circle) ||| word (.shape .square) ||| word (.shape .ellipse) |||
    word (.shape .rectangle)
  | .color =>
    word (.color .red) ||| word (.color .blue) ||| word (.color .green) |||
    word (.color .white) ||| word (.color .black)

/-- The phrase derives the list of kinds. -/
inductive Derives : Phrase → List Token.Kind → Prop
  | word {kind : Token.Kind} : Derives (.word kind) [kind]
  | symbol {symbol : Symbol} {kinds : List Token.Kind} :
    Derives (rule symbol) kinds → Derives (.symbol symbol) kinds
  | seq {first second : Phrase} {kinds others : List Token.Kind} :
    Derives first kinds → Derives second others → Derives (first ++ second) (kinds ++ others)
  | left {first second : Phrase} {kinds : List Token.Kind} :
    Derives first kinds → Derives (first ||| second) kinds
  | right {first second : Phrase} {kinds : List Token.Kind} :
    Derives second kinds → Derives (first ||| second) kinds
  | none {phrase : Phrase} : Derives (.many phrase) []
  | more {phrase : Phrase} {kinds others : List Token.Kind} :
    Derives phrase kinds → Derives (.many phrase) others → Derives (.many phrase) (kinds ++ others)

/-- The phrase derives the kinds of the tokens. -/
def Matches (phrase : Phrase) (tokens : List Token) : Prop :=
  Derives phrase (tokens.map Token.kind)

section Matches

variable {tokens : List Token} {first second phrase : Phrase}

theorem matches_word {kind : Token.Kind} :
    Matches (.word kind) tokens ↔ ∃ token : Token, tokens = [token] ∧ token.kind = kind := by
  constructor
  · intro h
    rw [Matches] at h
    generalize hkinds : tokens.map Token.kind = kinds at h
    cases h with
    | word => exact List.map_eq_singleton_iff.1 hkinds
  · rintro ⟨token, rfl, rfl⟩
    exact .word

theorem matches_symbol {symbol : Symbol} :
    Matches (.symbol symbol) tokens ↔ Matches (rule symbol) tokens :=
  ⟨fun h => by cases h; assumption, .symbol⟩

theorem matches_seq : Matches (first ++ second) tokens ↔
    ∃ front back, tokens = front ++ back ∧ Matches first front ∧ Matches second back := by
  constructor
  · intro h
    rw [Matches] at h
    generalize hkinds : tokens.map Token.kind = kinds at h
    cases h with
    | seq hfirst hsecond =>
      obtain ⟨front, back, rfl, rfl, rfl⟩ := List.map_eq_append_iff.1 hkinds
      exact ⟨front, back, rfl, hfirst, hsecond⟩
  · rintro ⟨front, back, rfl, hfirst, hsecond⟩
    rw [Matches, List.map_append]
    exact .seq hfirst hsecond

theorem matches_alt :
    Matches (first ||| second) tokens ↔ Matches first tokens ∨ Matches second tokens := by
  constructor
  · intro h
    cases h with
    | left h => exact .inl h
    | right h => exact .inr h
  · rintro (h | h)
    · exact .left h
    · exact .right h

theorem matches_many : Matches (.many phrase) tokens ↔
    ∃ parts : List (List Token), tokens = parts.flatten ∧ ∀ part ∈ parts, Matches phrase part := by
  constructor
  · intro h
    rw [Matches] at h
    generalize hphrase : Phrase.many phrase = whole at h
    generalize hkinds : tokens.map Token.kind = kinds at h
    induction h generalizing tokens with
    | none => exact ⟨[], by simpa using hkinds, by simp⟩
    | more hpart _ _ ih =>
      obtain rfl := Phrase.many.inj hphrase
      obtain ⟨front, back, rfl, rfl, rfl⟩ := List.map_eq_append_iff.1 hkinds
      obtain ⟨parts, rfl, hparts⟩ := ih hphrase rfl
      exact ⟨front :: parts, rfl, List.forall_mem_cons.2 ⟨hpart, hparts⟩⟩
    | _ => cases hphrase
  · rintro ⟨parts, rfl, hparts⟩
    induction parts with
    | nil => exact .none
    | cons part parts ih =>
      obtain ⟨hpart, hparts⟩ := List.forall_mem_cons.1 hparts
      rw [Matches, List.flatten_cons, List.map_append]
      exact .more hpart (ih hparts)

end Matches

end Phrase

/-! ## What a tree yields can be derived -/

def Literal.Full : Literal → Prop
  | tuple _ numbers => numbers ≠ []
  | number .. | color .. => True

def Clause.Full : Clause → Prop
  | assign _ _ value => value.Full
  | declare .. | place .. => True

structure Sentence.Full (sentence : Sentence) : Prop where
  clauses_ne_nil : sentence.clauses ≠ []
  clauses : ∀ clause ∈ sentence.clauses, clause.Full

/-- No list of the tree is empty. -/
structure Program.Full (program : Program) : Prop where
  sentences_ne_nil : program.sentences ≠ []
  sentences : ∀ sentence ∈ program.sentences, sentence.Full

/-! Fullness is a matter of the constructors. -/

section Through

variable {view : View}

theorem Literal.full_through {literal : Literal} : (literal.through view).Full ↔ literal.Full := by
  cases literal with
  | number | color => exact Iff.rfl
  | tuple _ numbers => exact not_congr List.map_eq_nil_iff

theorem Clause.full_through {clause : Clause} : (clause.through view).Full ↔ clause.Full := by
  cases clause with
  | declare | place => exact Iff.rfl
  | assign => exact Literal.full_through

theorem Sentence.full_through {sentence : Sentence} :
    (sentence.through view).Full ↔ sentence.Full := by
  constructor
  · rintro ⟨hne, hclauses⟩
    refine ⟨fun hnil => hne (List.map_eq_nil_iff.2 hnil), fun clause hclause => ?_⟩
    exact Clause.full_through.1 (hclauses _ (List.mem_map_of_mem hclause))
  · rintro ⟨hne, hclauses⟩
    refine ⟨fun hnil => hne (List.map_eq_nil_iff.1 hnil), fun clause hmem => ?_⟩
    obtain ⟨clause, hclause, rfl⟩ := List.mem_map.1 hmem
    exact Clause.full_through.2 (hclauses clause hclause)

theorem Program.full_through {program : Program} :
    (program.through view).Full ↔ program.Full := by
  constructor
  · rintro ⟨hne, hsentences⟩
    refine ⟨fun hnil => hne (List.map_eq_nil_iff.2 hnil), fun sentence hsentence => ?_⟩
    exact Sentence.full_through.1 (hsentences _ (List.mem_map_of_mem hsentence))
  · rintro ⟨hne, hsentences⟩
    refine ⟨fun hnil => hne (List.map_eq_nil_iff.1 hnil), fun sentence hmem => ?_⟩
    obtain ⟨sentence, hsentence, rfl⟩ := List.mem_map.1 hmem
    exact Sentence.full_through.2 (hsentences sentence hsentence)

end Through

open Phrase

theorem derives_listed {α : Type} {separator : Token.Kind} {phrase : Phrase}
    {yield : α → List Piece} {items : List α} (hne : items ≠ [])
    (hitem : ∀ item ∈ items, Derives phrase ((yield item).map Piece.kind)) :
    Derives (listed separator phrase) ((separatedBy separator yield items).map Piece.kind) := by
  match items with
  | [] => exact absurd rfl hne
  | item :: items =>
    obtain ⟨hfirst, hitem⟩ := List.forall_mem_cons.1 hitem
    induction items generalizing item with
    | nil =>
      rw [separatedBy_singleton, ← List.append_nil (List.map _ _)]
      exact .seq hfirst .none
    | cons next items ih =>
      obtain ⟨hnext, hitem⟩ := List.forall_mem_cons.1 hitem
      have hmore := ih next (by simp) (List.forall_mem_cons.2 ⟨hnext, hitem⟩) hnext hitem
      rw [separatedBy_cons_cons, List.map_append, List.map_cons]
      generalize (separatedBy separator yield (next :: items)).map Piece.kind = kinds at hmore
      cases hmore with
      | seq hnext hmany => exact .seq hfirst (.more (.seq .word hnext) hmany)

theorem Object.derives (object : Object) :
    Derives (.symbol .object) (object.yield.map Piece.kind) := by
  cases object with
  | shape => exact .symbol (.left .word)
  | canvas => exact .symbol (.right .word)

theorem Attribute.derives (attr : Attribute) : Derives (.symbol .attribute) [.attr attr] := by
  cases attr with
  | position => exact .symbol (.left (.left .word))
  | size => exact .symbol (.left (.right .word))
  | color => exact .symbol (.right .word)

theorem Area.derives (area : Area) : Derives (.symbol .area) [.area area] := by
  cases area with
  | border => exact .symbol .word

theorem Shape.Kind.derives (kind : Shape.Kind) : Derives (.symbol .shape) [.shape kind] := by
  cases kind with
  | circle => exact .symbol (.left (.left (.left .word)))
  | square => exact .symbol (.left (.left (.right .word)))
  | ellipse => exact .symbol (.left (.right .word))
  | rectangle => exact .symbol (.right .word)

theorem Color.derives (color : Color) : Derives (.symbol .color) [.color color] := by
  cases color with
  | red => exact .symbol (.left (.left (.left (.left .word))))
  | blue => exact .symbol (.left (.left (.left (.right .word))))
  | green => exact .symbol (.left (.left (.right .word)))
  | white => exact .symbol (.left (.right .word))
  | black => exact .symbol (.right .word)

theorem Placement.derives (word : Leaf Placement) :
    Derives (.symbol .placement) ((Placement.yield word).map Piece.kind) := by
  obtain ⟨token, placement⟩ := word
  cases placement with
  | front => exact .symbol (.left (.seq (.seq .word .word) .word))
  | behind => exact .symbol (.right .word)

theorem Target.derives (target : Target) :
    Derives (.symbol .target) (target.yield.map Piece.kind) := by
  cases target with
  | implicit _ attr => exact .symbol (.left (.left (.left (.seq .word attr.kind.derives))))
  | implicitArea _ attr part =>
    exact .symbol (.left (.left (.right
      (.seq (.seq (.seq attr.kind.derives .word) .word) part.kind.derives))))
  | area _ attr part object =>
    exact .symbol (.left (.right
      (.seq (.seq (.seq (.seq attr.kind.derives .word) part.kind.derives) .word) object.derives)))
  | plain _ attr object =>
    exact .symbol (.right (.seq (.seq attr.kind.derives .word) object.derives))

theorem Literal.Full.derives {literal : Literal} (h : literal.Full) :
    Derives (.symbol .literal) (literal.yield.map Piece.kind) := by
  cases literal with
  | number => exact .symbol (.left (.left .word))
  | tuple _ numbers =>
    have hnumbers : Derives (listed .comma (.word .number))
        ((separatedBy .comma Token.asNumber numbers).map Piece.kind) :=
      derives_listed h fun _ _ => .word
    rw [Literal.yield, closedBy, List.map_cons, List.map_append]
    exact .symbol (.left (.right (.seq (.seq .word hnumbers) .word)))
  | color _ word => exact .symbol (.right word.kind.derives)

theorem Clause.Full.derives {clause : Clause} (h : clause.Full) :
    Derives (.symbol .clause) (clause.yield.map Piece.kind) := by
  cases clause with
  | declare _ name word =>
    exact .symbol (.left (.left (.seq (.seq .word .word) word.kind.derives)))
  | place _ first placement second =>
    rw [Clause.yield, List.map_append]
    exact .symbol (.left (.right (.seq (.seq (.seq .word .word) (Placement.derives placement)) .word)))
  | assign _ target value =>
    have hvalue : value.Full := h
    rw [Clause.yield, List.map_append, List.map_cons, ← List.singleton_append, ← List.append_assoc]
    exact .symbol (.right (.seq (.seq target.derives .word) hvalue.derives))

theorem Sentence.Full.derives {sentence : Sentence} (h : sentence.Full) :
    Derives (.symbol .sentence)
      ((separatedBy .and Clause.yield sentence.clauses).map Piece.kind) :=
  .symbol (derives_listed h.clauses_ne_nil fun clause hclause => (h.clauses clause hclause).derives)

/-- Items that a word closes are items that it separates and closes. -/
theorem flatMap_eq_closedBy {α : Type} {close : Token.Kind} {yield : α → List Piece}
    {items : List α} (hne : items ≠ []) :
    items.flatMap (fun item => yield item ++ [.implied close]) =
      closedBy close close yield items := by
  match items with
  | [] => exact absurd rfl hne
  | item :: items =>
    induction items generalizing item with
    | nil => rw [List.flatMap_singleton, closedBy_singleton]
    | cons next items ih =>
      rw [List.flatMap_cons, ih next (by simp), closedBy_cons_cons, List.append_assoc]
      rfl

/-- What a full tree yields can be derived. -/
theorem Program.Full.derives {program : Program} (h : program.Full) :
    Derives (.symbol .program) (program.yield.map Piece.kind) := by
  have hyield : program.yield = closedBy .period .period
      (fun sentence => separatedBy .and Clause.yield sentence.clauses) program.sentences :=
    flatMap_eq_closedBy h.sentences_ne_nil
  rw [hyield, closedBy, List.map_append]
  exact .symbol (.seq (derives_listed h.sentences_ne_nil fun sentence hsentence =>
    (h.sentences sentence hsentence).derives) .word)

/-! ## Spelled trees are full -/

theorem Separated.forall_mem {α : Type} {separator : Token.Kind} {good : α → Prop}
    {spelled : α → List Token → Prop} (hitem : ∀ node used, spelled node used → good node)
    {items : List α} {used : List Token} (h : Separated separator spelled items used) :
    items ≠ [] ∧ ∀ item ∈ items, good item := by
  induction h with
  | one hnode => exact ⟨by simp, by simpa using hitem _ _ hnode⟩
  | more hnode _ _ ih => exact ⟨by simp, List.forall_mem_cons.2 ⟨hitem _ _ hnode, ih.2⟩⟩

theorem Repeated.forall_mem {α : Type} {good : α → Prop} {spelled : α → List Token → Prop}
    (hitem : ∀ node used, spelled node used → good node) {items : List α} {used : List Token}
    (h : Repeated spelled items used) : items ≠ [] ∧ ∀ item ∈ items, good item := by
  induction h with
  | one hnode => exact ⟨by simp, by simpa using hitem _ _ hnode⟩
  | more hnode _ ih => exact ⟨by simp, List.forall_mem_cons.2 ⟨hitem _ _ hnode, ih.2⟩⟩

section Spelled

variable {tokens : List Token}

theorem Literal.SpelledBy.full {literal : Literal} (h : literal.SpelledBy tokens) :
    literal.Full := by
  cases h with
  | number | color => trivial
  | tuple _ hnumbers _ =>
    exact (hnumbers.forall_mem (fun _ _ _ => trivial : ∀ _ _, _ → True)).1

theorem Clause.SpelledBy.full {clause : Clause} (h : clause.SpelledBy tokens) : clause.Full := by
  cases h with
  | declare | place => trivial
  | assign _ _ hvalue => exact hvalue.full

theorem Sentence.SpelledBy.full {sentence : Sentence} (h : sentence.SpelledBy tokens) :
    sentence.Full := by
  cases h with
  | intro hclauses _ =>
    obtain ⟨hne, hclauses⟩ := hclauses.forall_mem fun _ _ hclause => hclause.full
    exact ⟨hne, hclauses⟩

theorem Program.SpelledBy.full {program : Program} (h : program.SpelledBy tokens) :
    program.Full := by
  cases h with
  | intro hsentences =>
    obtain ⟨hne, hsentences⟩ := hsentences.forall_mem fun _ _ hsentence => hsentence.full
    exact ⟨hne, hsentences⟩

end Spelled

/-! ## What can be derived is spelled by a tree -/

section Matches

variable {tokens : List Token}

theorem exists_separated {α : Type} {separator : Token.Kind} {phrase : Phrase}
    {spelled : α → List Token → Prop}
    (hitem : ∀ {tokens}, Matches phrase tokens → ∃ node, spelled node tokens)
    (h : Matches (listed separator phrase) tokens) :
    ∃ items, Separated separator spelled items tokens := by
  obtain ⟨front, back, rfl, hfront, hback⟩ := matches_seq.1 h
  obtain ⟨parts, rfl, hparts⟩ := matches_many.1 hback
  clear h hback
  induction parts generalizing front with
  | nil =>
    obtain ⟨node, hnode⟩ := hitem hfront
    exact ⟨[node], by simpa using .one hnode⟩
  | cons part parts ih =>
    obtain ⟨node, hnode⟩ := hitem hfront
    obtain ⟨hpart, hrest⟩ := List.forall_mem_cons.1 hparts
    obtain ⟨word, next, rfl, hword, hnext⟩ := matches_seq.1 hpart
    obtain ⟨between, rfl, hbetween⟩ := matches_word.1 hword
    obtain ⟨items, hitems⟩ := ih next hnext hrest
    exact ⟨node :: items, by simpa using .more hnode hbetween hitems⟩

theorem exists_attr (h : Matches (.symbol .attribute) tokens) :
    ∃ word attr, tokens = [word] ∧ word.kind = .attr attr := by
  simp only [matches_symbol, rule, matches_alt, matches_word] at h
  rcases h with (⟨word, rfl, h⟩ | ⟨word, rfl, h⟩) | ⟨word, rfl, h⟩
  all_goals exact ⟨word, _, rfl, h⟩

theorem exists_area (h : Matches (.symbol .area) tokens) :
    ∃ word area, tokens = [word] ∧ word.kind = .area area := by
  simp only [matches_symbol, rule, matches_word] at h
  obtain ⟨word, rfl, h⟩ := h
  exact ⟨word, _, rfl, h⟩

theorem exists_shape (h : Matches (.symbol .shape) tokens) :
    ∃ word kind, tokens = [word] ∧ word.kind = .shape kind := by
  simp only [matches_symbol, rule, matches_alt, matches_word] at h
  rcases h with ((⟨word, rfl, h⟩ | ⟨word, rfl, h⟩) | ⟨word, rfl, h⟩) | ⟨word, rfl, h⟩
  all_goals exact ⟨word, _, rfl, h⟩

theorem exists_color (h : Matches (.symbol .color) tokens) :
    ∃ word color, tokens = [word] ∧ word.kind = .color color := by
  simp only [matches_symbol, rule, matches_alt, matches_word] at h
  rcases h with (((⟨word, rfl, h⟩ | ⟨word, rfl, h⟩) | ⟨word, rfl, h⟩) | ⟨word, rfl, h⟩) |
    ⟨word, rfl, h⟩
  all_goals exact ⟨word, _, rfl, h⟩

theorem exists_placement (h : Matches (.symbol .placement) tokens) :
    ∃ placement, Placement.SpelledBy placement tokens := by
  simp only [matches_symbol, rule, matches_alt, matches_seq, matches_word] at h
  rcases h with ⟨_, _, rfl, ⟨_, _, rfl, ⟨within, rfl, hwithin⟩, front, rfl, hfront⟩, of, rfl, hof⟩ |
    ⟨behind, rfl, hbehind⟩
  · exact ⟨_, .front hwithin hfront hof⟩
  · exact ⟨_, .behind hbehind⟩

theorem exists_object (h : Matches (.symbol .object) tokens) :
    ∃ object : Object, object.SpelledBy tokens := by
  simp only [matches_symbol, rule, matches_alt, matches_word] at h
  rcases h with ⟨name, rfl, hname⟩ | ⟨canvas, rfl, hcanvas⟩
  · exact ⟨_, .shape hname⟩
  · exact ⟨_, .canvas hcanvas⟩

theorem exists_target (h : Matches (.symbol .target) tokens) :
    ∃ target : Target, target.SpelledBy tokens := by
  rw [matches_symbol] at h
  simp only [rule, matches_alt, matches_seq, matches_word] at h
  rcases h with ((⟨_, word, rfl, ⟨its, rfl, hits⟩, hattr⟩ |
    ⟨_, part, rfl, ⟨_, _, rfl, ⟨attr, _, rfl, hattr, of, rfl, hof⟩, its, rfl, hits⟩, harea⟩) |
    ⟨_, object, rfl, ⟨_, _, rfl, ⟨_, part, rfl, ⟨attr, _, rfl, hattr, of, rfl, hof⟩, harea⟩, of', rfl,
      hof'⟩, hobject⟩) |
    ⟨_, object, rfl, ⟨attr, _, rfl, hattr, of, rfl, hof⟩, hobject⟩
  · obtain ⟨word, attr, rfl, hword⟩ := exists_attr hattr
    exact ⟨_, .implicit hits hword⟩
  · obtain ⟨word, attr, rfl, hword⟩ := exists_attr hattr
    obtain ⟨part, area, rfl, hpart⟩ := exists_area harea
    exact ⟨_, .implicitArea hword hof hits hpart⟩
  · obtain ⟨word, attr, rfl, hword⟩ := exists_attr hattr
    obtain ⟨part, area, rfl, hpart⟩ := exists_area harea
    obtain ⟨object, hobject⟩ := exists_object hobject
    exact ⟨_, .area hword hof hpart hof' hobject⟩
  · obtain ⟨word, attr, rfl, hword⟩ := exists_attr hattr
    obtain ⟨object, hobject⟩ := exists_object hobject
    exact ⟨_, .plain hword hof hobject⟩

theorem exists_literal (h : Matches (.symbol .literal) tokens) :
    ∃ literal : Literal, literal.SpelledBy tokens := by
  rw [matches_symbol] at h
  simp only [rule, matches_alt, matches_word] at h
  rcases h with (⟨number, rfl, hnumber⟩ | h) | h
  · exact ⟨_, .number hnumber⟩
  · simp only [matches_seq, matches_word] at h
    obtain ⟨_, _, rfl, ⟨_, numbers, rfl, ⟨left, rfl, hleft⟩, hnumbers⟩, right, rfl, hright⟩ := h
    have hnumber : ∀ {tokens}, Matches (.word .number) tokens →
        ∃ number : Token, Token.SpelledBy .number number tokens := matches_word.1
    obtain ⟨numbers, hlist⟩ := exists_separated hnumber hnumbers
    exact ⟨_, .tuple hleft hlist hright⟩
  · obtain ⟨word, color, rfl, hcolor⟩ := exists_color h
    exact ⟨_, .color hcolor⟩

theorem exists_clause (h : Matches (.symbol .clause) tokens) :
    ∃ clause : Clause, clause.SpelledBy tokens := by
  rw [matches_symbol] at h
  simp only [rule, matches_alt, matches_seq, matches_word] at h
  rcases h with (⟨_, word, rfl, ⟨_, _, rfl, ⟨name, rfl, hname⟩, is, rfl, his⟩, hshape⟩ |
    ⟨_, _, rfl, ⟨_, placement, rfl, ⟨_, _, rfl, ⟨name, rfl, hname⟩, is, rfl, his⟩, hplacement⟩,
      second, rfl, hsecond⟩) |
    ⟨_, value, rfl, ⟨target, _, rfl, htarget, is, rfl, his⟩, hvalue⟩
  · obtain ⟨word, kind, rfl, hword⟩ := exists_shape hshape
    exact ⟨_, .declare hname his hword⟩
  · obtain ⟨placement, hwords⟩ := exists_placement hplacement
    exact ⟨_, .place hname his hwords hsecond⟩
  · obtain ⟨target, hleft⟩ := exists_target htarget
    obtain ⟨value, hright⟩ := exists_literal hvalue
    obtain ⟨others, rfl, -⟩ := hleft.head
    exact ⟨_, by simpa using .assign hleft his hright⟩

theorem exists_sentence (h : Matches (.symbol .sentence) tokens) :
    ∃ sentence : Sentence, ∀ period : Token, period.kind = .period →
      sentence.SpelledBy (tokens ++ [period]) := by
  obtain ⟨clauses, hclauses⟩ := exists_separated exists_clause (matches_symbol.1 h)
  obtain ⟨first, others, rfl⟩ := exists_cons_of_clauses hclauses
  exact ⟨⟨first, clauses⟩, fun period hperiod => .intro hclauses hperiod⟩

/-- Items that a word separates and closes are items that it closes each. -/
theorem Separated.repeated {α : Type} {close : Token.Kind} {spelled : α → List Token → Prop}
    {last : Token} (hlast : last.kind = close) {items : List α}
    (h : Separated close (fun item used => ∀ between : Token, between.kind = close →
      spelled item (used ++ [between])) items tokens) :
    Repeated spelled items (tokens ++ [last]) := by
  induction h with
  | one hnode => exact .one (hnode last hlast)
  | @more item items used others between hnode hbetween _ ih =>
    have hmore := Repeated.more (hnode between hbetween) ih
    simpa using hmore

/-- What can be derived is spelled by a tree. -/
theorem exists_program (h : Matches (.symbol .program) tokens) :
    ∃ program : Program, program.SpelledBy tokens := by
  rw [matches_symbol] at h
  obtain ⟨front, back, rfl, hfront, hback⟩ := matches_seq.1 h
  obtain ⟨period, rfl, hperiod⟩ := matches_word.1 hback
  obtain ⟨sentences, hsentences⟩ := exists_separated exists_sentence hfront
  have hclosed := hsentences.repeated hperiod
  have hstart : ∀ sentence used, Sentence.SpelledBy sentence used →
      ∃ first others, used = first :: others ∧ first.kind ≠ .endOfInput :=
    fun sentence used hsentence => hsentence.start
  obtain ⟨first, others, hcons, -⟩ := hclosed.head hstart
  rw [hcons] at hclosed ⊢
  exact ⟨_, .intro hclosed⟩

end Matches

/-- The kinds of a spelling can be derived. -/
theorem Program.SpelledBy.derives {program : Program} {tokens : List Token}
    (h : program.SpelledBy tokens) : Matches (.symbol .program) tokens := by
  have hkinds : program.yield.map Piece.kind = tokens.map Token.kind := by
    rw [h.yield, List.map_map]
    exact List.map_congr_left fun token _ => token.kind_piece
  rw [Matches, ← hkinds]
  exact h.full.derives

namespace Program

/-! ## What the parser accepts -/

/-- **The parser decides its grammar**: it answers with a tree exactly where the kinds of the tokens
before the first end marker can be derived. The words of the tree are then those tokens, and it is
the only tree with those words. -/
theorem parse_decides_grammar (tokens : List Token) :
    ((∃ program, parse tokens = .ok program) ↔
      Derives (.symbol .program) ((body tokens).map Token.kind)) ∧
    ∀ program, parse tokens = .ok program →
      program.yield = (body tokens).map Token.piece ∧
      ∀ other : Program, other.yield = (body tokens).map Token.piece →
        other.skeleton = program.skeleton := by
  refine ⟨⟨?_, ?_⟩, ?_⟩
  · rintro ⟨program, h⟩
    exact (parse_eq_ok.1 h).derives
  · intro h
    obtain ⟨program, hprogram⟩ := exists_program h
    exact ⟨program, parse_eq_ok.2 hprogram⟩
  · intro program h
    have hyield := (parse_eq_ok.1 h).yield
    exact ⟨hyield, fun other hother => skeleton_eq_of_yield_eq (hother.trans hyield.symm)⟩

/-- An end marker inside the list ends `A is circle.`, and what follows it is not looked at. -/
theorem parse_decides_grammar_of_declaration :
    let tokens : List Token := [⟨.name, "A", 1⟩, ⟨.is, "IS", 1⟩, ⟨.shape .circle, "circle", 1⟩,
      ⟨.period, ".", 1⟩, ⟨.endOfInput, "", 2⟩, ⟨.blank, " ", 2⟩]
    let sentence : Sentence := ⟨⟨.name, "A", 1⟩,
      [.declare ⟨.name, "A", 1⟩ ⟨.name, "A", 1⟩ ⟨⟨.shape .circle, "circle", 1⟩, .circle⟩]⟩
    let program : Program := ⟨⟨.name, "A", 1⟩, [sentence]⟩
    let unplaced : Program := ⟨default, [sentence]⟩
    parse tokens = .ok program ∧ program.yield = (body tokens).map Token.piece ∧
      unplaced.yield = (body tokens).map Token.piece ∧ unplaced.skeleton = program.skeleton := by
  intro tokens sentence program unplaced
  have hparse : parse tokens = .ok program :=
    parse_eq_ok.2 (.intro (.one (.intro (.one (.declare rfl rfl rfl)) rfl)))
  obtain ⟨hyield, hunique⟩ := (parse_decides_grammar tokens).2 program hparse
  exact ⟨hparse, hyield, hyield, hunique unplaced hyield⟩

end Program

end Tableau
