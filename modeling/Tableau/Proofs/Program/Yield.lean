import Tableau.Proofs.Program.Spelling

/-!
# Trees written out

The `yield` of a tree is what its constructors say about the words of its text, from the first to
the last: of most words the kind, of names, numbers and leaves also the token. It says nothing about
the start tokens of the nodes.

* A spelling of a tree has the words of its yield, no more and no fewer (`Program.SpelledBy.yield`).
* A sentence ends with a period and has no other one in it (`Sentence.inner_or_period`), and no word
  of a program is an end marker (`Program.SpelledBy.unmarked`).

The yield is defined for all trees, those that no text produces included.
-/

namespace Tableau

/-! ## Words -/

/-- A word of a tree that is written out. -/
inductive Piece
  /-- A word that the constructors imply. The tree has only its kind. -/
  | implied (kind : Token.Kind)
  /-- A name, a number or a leaf: what kind of word it is for the tree, and its token. -/
  | kept (kind : Token.Kind) (token : Token)
deriving DecidableEq, Repr

def Piece.kind : Piece → Token.Kind
  | implied kind | kept kind _ => kind

/-- Whether a tree keeps the tokens of a kind. -/
def Token.Kind.isKept : Token.Kind → Bool
  | shape _ | color _ | area _ | attr _ | within | behind | number | name => true
  | _ => false

/-- What a tree can have of a token. -/
def Token.piece (token : Token) : Piece :=
  if token.kind.isKept then .kept token.kind token else .implied token.kind

@[simp] theorem Token.kind_piece (token : Token) : token.piece.kind = token.kind := by
  unfold Token.piece
  split <;> rfl

theorem Token.piece_of_isKept {token : Token} {kind : Token.Kind} (h : token.kind = kind)
    (hkept : kind.isKept = true) : token.piece = .kept kind token := by
  subst h
  exact if_pos hkept

theorem Token.piece_of_not_isKept {token : Token} {kind : Token.Kind} (h : token.kind = kind)
    (hkept : kind.isKept = false) : token.piece = .implied kind := by
  subst h
  exact if_neg (by simp [hkept])

/-- The kind of the first word of a placement. -/
def Placement.kind : Placement → Token.Kind
  | front => .within
  | behind => .behind

/-! ## Yields -/

/-- A leaf whose words are of the given kinds. -/
def Leaf.piece {α : Type} (kindOf : α → Token.Kind) (leaf : Leaf α) : Piece :=
  .kept (kindOf leaf.kind) leaf.token

def Placement.yield (word : Leaf Placement) : List Piece :=
  match word.kind with
  | .front => [word.piece Placement.kind, .implied .front, .implied .of]
  | .behind => [word.piece Placement.kind]

def Object.yield : Object → List Piece
  | shape _ name => [.kept .name name]
  | canvas _ => [.implied .canvas]

def Target.yield : Target → List Piece
  | plain _ attr object => attr.piece .attr :: .implied .of :: object.yield
  | area _ attr part object =>
    attr.piece .attr :: .implied .of :: part.piece .area :: .implied .of :: object.yield
  | implicit _ attr => [.implied .its, attr.piece .attr]
  | implicitArea _ attr part =>
    [attr.piece .attr, .implied .of, .implied .its, part.piece .area]

/-- Items with a word between any two. -/
def separatedBy {α : Type} (separator : Token.Kind) (yield : α → List Piece) (items : List α) :
    List Piece :=
  [.implied separator].intercalate (items.map yield)

/-- Items with a word between any two and one behind the last. -/
def closedBy {α : Type} (separator close : Token.Kind) (yield : α → List Piece) (items : List α) :
    List Piece :=
  separatedBy separator yield items ++ [.implied close]

section Separated

variable {α : Type} {separator : Token.Kind} {yield : α → List Piece} {items : List α}

theorem separatedBy_singleton {item : α} : separatedBy separator yield [item] = yield item :=
  List.intercalate_singleton

theorem separatedBy_cons_cons {item next : α} {items : List α} :
    separatedBy separator yield (item :: next :: items) =
      yield item ++ .implied separator :: separatedBy separator yield (next :: items) := by
  rw [separatedBy, List.map_cons, List.map_cons, List.intercalate_cons_cons, List.append_assoc]
  rfl

theorem mem_separatedBy {item : α} {piece : Piece} (hitem : item ∈ items) (h : piece ∈ yield item) :
    piece ∈ separatedBy separator yield items := by
  induction items with
  | nil => exact nomatch hitem
  | cons first items ih =>
    cases items with
    | nil =>
      obtain rfl := List.mem_singleton.1 hitem
      rwa [separatedBy_singleton]
    | cons next items =>
      rw [separatedBy_cons_cons]
      rcases List.mem_cons.1 hitem with rfl | hitem
      · exact List.mem_append_left _ h
      · exact List.mem_append_right _ (List.mem_cons_of_mem _ (ih hitem))

theorem of_mem_separatedBy {piece : Piece} (h : piece ∈ separatedBy separator yield items) :
    piece = .implied separator ∨ ∃ item ∈ items, piece ∈ yield item := by
  induction items with
  | nil => exact nomatch h
  | cons first items ih =>
    cases items with
    | nil =>
      rw [separatedBy_singleton] at h
      exact .inr ⟨first, List.mem_cons_self, h⟩
    | cons next items =>
      rw [separatedBy_cons_cons, List.mem_append, List.mem_cons] at h
      rcases h with h | h | h
      · exact .inr ⟨first, List.mem_cons_self, h⟩
      · exact .inl h
      · rcases ih h with h | ⟨item, hitem, h⟩
        · exact .inl h
        · exact .inr ⟨item, List.mem_cons_of_mem _ hitem, h⟩

end Separated

/-- A number by itself. -/
def Token.asNumber (number : Token) : List Piece := [.kept .number number]

def Literal.yield : Literal → List Piece
  | number _ digits => [.kept .number digits]
  | tuple _ numbers =>
    .implied .leftParen :: closedBy .comma .rightParen Token.asNumber numbers
  | color _ word => [word.piece .color]

def Clause.yield : Clause → List Piece
  | declare _ name word => [.kept .name name, .implied .is, word.piece .shape]
  | place _ first placement second =>
    .kept .name first :: .implied .is :: Placement.yield placement ++ [.kept .name second]
  | assign _ target value => target.yield ++ .implied .is :: value.yield

def Sentence.yield (sentence : Sentence) : List Piece :=
  closedBy .and .period Clause.yield sentence.clauses

def Program.yield (program : Program) : List Piece := program.sentences.flatMap Sentence.yield

/-! ## The words of a spelling -/

theorem Separated.yield {α : Type} {separator : Token.Kind} {yield : α → List Piece}
    {spelled : α → List Token → Prop} (hkept : separator.isKept = false)
    (hitem : ∀ node used, spelled node used → yield node = used.map Token.piece)
    {items : List α} {used : List Token} (h : Separated separator spelled items used) :
    separatedBy separator yield items = used.map Token.piece := by
  unfold separatedBy
  induction h with
  | one hnode => simp [hitem _ _ hnode]
  | @more item items tokens others between hnode hbetween hmore ih =>
    have hne : items.map yield ≠ [] := by
      cases hmore <;> simp
    rw [List.map_cons, List.intercalate_cons_of_ne_nil hne, ih, hitem _ _ hnode, List.map_append,
      List.map_cons, Token.piece_of_not_isKept hbetween hkept, List.append_assoc]
    rfl

theorem Repeated.yield {α : Type} {yield : α → List Piece} {spelled : α → List Token → Prop}
    (hitem : ∀ node used, spelled node used → yield node = used.map Token.piece)
    {items : List α} {used : List Token} (h : Repeated spelled items used) :
    items.flatMap yield = used.map Token.piece := by
  induction h with
  | one hnode => simp [hitem _ _ hnode]
  | more hnode _ ih => rw [List.flatMap_cons, hitem _ _ hnode, ih, List.map_append]

section Spelled

variable {tokens : List Token}

theorem Placement.SpelledBy.yield {word : Leaf Placement} (h : Placement.SpelledBy word tokens) :
    Placement.yield word = tokens.map Token.piece := by
  cases h with
  | front hwithin hfront hof =>
    simp [Placement.yield, Leaf.piece, Placement.kind, Token.piece_of_isKept hwithin rfl,
      Token.piece_of_not_isKept hfront rfl, Token.piece_of_not_isKept hof rfl]
  | behind hbehind =>
    simp [Placement.yield, Leaf.piece, Placement.kind, Token.piece_of_isKept hbehind rfl]

theorem Object.SpelledBy.yield {object : Object} (h : object.SpelledBy tokens) :
    object.yield = tokens.map Token.piece := by
  cases h with
  | shape hname => simp [Object.yield, Token.piece_of_isKept hname rfl]
  | canvas hcanvas => simp [Object.yield, Token.piece_of_not_isKept hcanvas rfl]

theorem Target.SpelledBy.yield {target : Target} (h : target.SpelledBy tokens) :
    target.yield = tokens.map Token.piece := by
  cases h with
  | implicit hits hattr =>
    simp [Target.yield, Leaf.piece, Token.piece_of_not_isKept hits rfl,
      Token.piece_of_isKept hattr rfl]
  | implicitArea hattr hof hits hpart =>
    simp [Target.yield, Leaf.piece, Token.piece_of_isKept hattr rfl,
      Token.piece_of_not_isKept hof rfl, Token.piece_of_not_isKept hits rfl,
      Token.piece_of_isKept hpart rfl]
  | area hattr hof hpart hof' hobject =>
    simp [Target.yield, Leaf.piece, Token.piece_of_isKept hattr rfl,
      Token.piece_of_not_isKept hof rfl, Token.piece_of_isKept hpart rfl,
      Token.piece_of_not_isKept hof' rfl, hobject.yield]
  | plain hattr hof hobject =>
    simp [Target.yield, Leaf.piece, Token.piece_of_isKept hattr rfl,
      Token.piece_of_not_isKept hof rfl, hobject.yield]

theorem Literal.SpelledBy.yield {literal : Literal} (h : literal.SpelledBy tokens) :
    literal.yield = tokens.map Token.piece := by
  cases h with
  | number hnumber => simp [Literal.yield, Token.piece_of_isKept hnumber rfl]
  | tuple hleft hnumbers hright =>
    have hnumber : ∀ number used, Token.SpelledBy .number number used →
        number.asNumber = used.map Token.piece := by
      rintro number used ⟨rfl, hnumber⟩
      simp [Token.asNumber, Token.piece_of_isKept hnumber rfl]
    simp [Literal.yield, closedBy, hnumbers.yield rfl hnumber, Token.piece_of_not_isKept hleft rfl,
      Token.piece_of_not_isKept hright rfl]
  | color hcolor => simp [Literal.yield, Leaf.piece, Token.piece_of_isKept hcolor rfl]

theorem Clause.SpelledBy.yield {clause : Clause} (h : clause.SpelledBy tokens) :
    clause.yield = tokens.map Token.piece := by
  cases h with
  | declare hname his hword =>
    simp [Clause.yield, Leaf.piece, Token.piece_of_isKept hname rfl,
      Token.piece_of_not_isKept his rfl, Token.piece_of_isKept hword rfl]
  | place hname his hplacement hsecond =>
    simp [Clause.yield, Token.piece_of_isKept hname rfl, Token.piece_of_not_isKept his rfl,
      hplacement.yield, Token.piece_of_isKept hsecond rfl]
  | assign htarget his hvalue =>
    simp only [Clause.yield, htarget.yield, hvalue.yield, List.map_append, List.map_cons,
      Token.piece_of_not_isKept his rfl]

theorem Sentence.SpelledBy.yield {sentence : Sentence} (h : sentence.SpelledBy tokens) :
    sentence.yield = tokens.map Token.piece := by
  cases h with
  | intro hclauses hperiod =>
    rw [Sentence.yield, closedBy, hclauses.yield rfl fun _ _ hclause => hclause.yield,
      List.map_append, List.map_singleton, Token.piece_of_not_isKept hperiod rfl]

/-- A spelling of a tree has the words of the tree's yield. -/
theorem Program.SpelledBy.yield {program : Program} (h : program.SpelledBy tokens) :
    program.yield = tokens.map Token.piece := by
  cases h with
  | intro hsentences => exact hsentences.yield fun _ _ hsentence => hsentence.yield

end Spelled

/-! ## The words inside a sentence -/

/-- Whether a word stands inside a sentence. The tree has of it what a tree can have. -/
def Piece.Inner : Piece → Prop
  | implied kind => kind.isKept = false ∧ kind.keyword?.isSome = true ∧ kind ≠ .period
  | kept kind _ => kind.isKept = true

theorem Object.inner (object : Object) : ∀ piece ∈ object.yield, piece.Inner := by
  cases object with
  | shape => exact List.forall_mem_singleton.2 rfl
  | canvas => exact List.forall_mem_singleton.2 ⟨rfl, by decide⟩

theorem Target.inner (target : Target) : ∀ piece ∈ target.yield, piece.Inner := by
  have hof : (Piece.implied .of).Inner := ⟨rfl, by decide⟩
  have hits : (Piece.implied .its).Inner := ⟨rfl, by decide⟩
  cases target with
  | plain _ attr object =>
    simp only [Target.yield, List.forall_mem_cons]
    exact ⟨rfl, hof, object.inner⟩
  | area _ attr part object =>
    simp only [Target.yield, List.forall_mem_cons]
    exact ⟨rfl, hof, rfl, hof, object.inner⟩
  | implicit _ attr =>
    rw [Target.yield, List.forall_mem_cons, List.forall_mem_singleton]
    exact ⟨hits, rfl⟩
  | implicitArea _ attr part =>
    rw [Target.yield, List.forall_mem_cons, List.forall_mem_cons, List.forall_mem_cons,
      List.forall_mem_singleton]
    exact ⟨rfl, hof, hits, rfl⟩

theorem Literal.inner (literal : Literal) : ∀ piece ∈ literal.yield, piece.Inner := by
  cases literal with
  | number | color => exact List.forall_mem_singleton.2 rfl
  | tuple _ numbers =>
    rw [Literal.yield, closedBy, List.forall_mem_cons, List.forall_mem_append,
      List.forall_mem_singleton]
    refine ⟨⟨rfl, by decide⟩, fun piece hpiece => ?_, ⟨rfl, by decide⟩⟩
    rcases of_mem_separatedBy hpiece with rfl | ⟨number, -, hnumber⟩
    · exact ⟨rfl, by decide⟩
    · rw [List.mem_singleton.1 hnumber]
      rfl

theorem Clause.inner (clause : Clause) : ∀ piece ∈ clause.yield, piece.Inner := by
  have his : (Piece.implied .is).Inner := ⟨rfl, by decide⟩
  cases clause with
  | declare =>
    rw [Clause.yield, List.forall_mem_cons, List.forall_mem_cons, List.forall_mem_singleton]
    exact ⟨rfl, his, rfl⟩
  | place _ first placement second =>
    have hplacement : ∀ piece ∈ Placement.yield placement, piece.Inner := by
      obtain ⟨token, kind⟩ := placement
      cases kind with
      | front =>
        rw [Placement.yield, List.forall_mem_cons, List.forall_mem_cons, List.forall_mem_singleton]
        exact ⟨rfl, ⟨rfl, by decide⟩, ⟨rfl, by decide⟩⟩
      | behind => exact List.forall_mem_singleton.2 rfl
    rw [Clause.yield, List.forall_mem_append, List.forall_mem_cons, List.forall_mem_cons,
      List.forall_mem_singleton]
    exact ⟨⟨rfl, his, hplacement⟩, rfl⟩
  | assign _ target value =>
    rw [Clause.yield, List.forall_mem_append, List.forall_mem_cons]
    exact ⟨target.inner, his, value.inner⟩

theorem Sentence.inner (sentence : Sentence) :
    ∀ piece ∈ separatedBy .and Clause.yield sentence.clauses, piece.Inner := by
  intro piece hpiece
  rcases of_mem_separatedBy hpiece with rfl | ⟨clause, -, hclause⟩
  · exact ⟨rfl, by decide⟩
  · exact clause.inner piece hclause

theorem Sentence.inner_or_period (sentence : Sentence) :
    ∀ piece ∈ sentence.yield, piece.Inner ∨ piece = .implied .period := by
  intro piece hpiece
  rw [Sentence.yield, closedBy, List.mem_append, List.mem_singleton] at hpiece
  exact hpiece.imp (sentence.inner piece) id

/-! ## Spellings have no end marker -/

/-- No token of the list is an end marker. -/
def Unmarked (tokens : List Token) : Prop := ∀ token ∈ tokens, token.kind ≠ .endOfInput

theorem Sentence.SpelledBy.unmarked {sentence : Sentence} {tokens : List Token}
    (h : sentence.SpelledBy tokens) : Unmarked tokens := by
  intro token htoken hkind
  have hpiece := Token.piece_of_not_isKept hkind rfl
  have hmem : token.piece ∈ sentence.yield := h.yield ▸ List.mem_map_of_mem htoken
  rw [hpiece] at hmem
  rcases sentence.inner_or_period _ hmem with hinner | hperiod
  · exact absurd hinner.2.1 (by decide)
  · cases hperiod

theorem Sentence.SpelledBy.start {sentence : Sentence} {tokens : List Token}
    (h : sentence.SpelledBy tokens) :
    ∃ first others, tokens = first :: others ∧ first.kind ≠ .endOfInput := by
  obtain ⟨others, rfl⟩ := h.head
  exact ⟨_, others, rfl, h.unmarked _ List.mem_cons_self⟩

theorem Repeated.unmarked {sentences : List Sentence} {tokens : List Token}
    (h : Repeated Sentence.SpelledBy sentences tokens) : Unmarked tokens := by
  induction h with
  | one hsentence => exact hsentence.unmarked
  | more hsentence _ ih => exact List.forall_mem_append.2 ⟨hsentence.unmarked, ih⟩

theorem Program.SpelledBy.unmarked {program : Program} {tokens : List Token}
    (h : program.SpelledBy tokens) : Unmarked tokens := by
  cases h with
  | intro hsentences => exact hsentences.unmarked

end Tableau
