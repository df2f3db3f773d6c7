import Tableau.Proofs.Program.Yield

/-!
# What a tree is without its tokens

A `View` says what is seen of the tokens of a tree, and `program.through view` is the tree with what
is seen in their place. The start tokens of the nodes are never seen. Under the view that shows all
other tokens a tree is its `skeleton`; under the one that shows the texts of names and numbers it is
`bare`.

No two skeletons have one yield (`Program.skeleton_eq_of_yield_eq`), and more generally trees whose
yields look the same under a view look the same (`Program.through_eq_of_yield_eq`). Every rule but
the outermost has a yield that can be split off the front of a longer list (`PrefixFree`), and so
the rules can be put one behind the other.
-/

namespace Tableau

/-! ## Views -/

/-- What is seen of the token of a word that has some kind in a tree. -/
abbrev View := Token.Kind → Token → Token

/-- The view that shows the tokens as they are. -/
def View.whole : View := fun _ token => token

def Piece.through (view : View) : Piece → Piece
  | implied kind => .implied kind
  | kept kind token => .kept kind (view kind token)

def Leaf.through {α : Type} (view : View) (kindOf : α → Token.Kind) (leaf : Leaf α) : Leaf α :=
  ⟨view (kindOf leaf.kind) leaf.token, leaf.kind⟩

def Object.through (view : View) : Object → Object
  | shape _ name => .shape default (view .name name)
  | canvas _ => .canvas default

def Target.through (view : View) : Target → Target
  | plain _ attr object => .plain default (attr.through view .attr) (object.through view)
  | area _ attr part object =>
    .area default (attr.through view .attr) (part.through view .area) (object.through view)
  | implicit _ attr => .implicit default (attr.through view .attr)
  | implicitArea _ attr part =>
    .implicitArea default (attr.through view .attr) (part.through view .area)

def Literal.through (view : View) : Literal → Literal
  | number _ digits => .number default (view .number digits)
  | tuple _ numbers => .tuple default (numbers.map (view .number))
  | color _ word => .color default (word.through view .color)

def Clause.through (view : View) : Clause → Clause
  | declare _ name word => .declare default (view .name name) (word.through view .shape)
  | place _ first placement second =>
    .place default (view .name first) (placement.through view Placement.kind) (view .name second)
  | assign _ target value => .assign default (target.through view) (value.through view)

def Sentence.through (view : View) (sentence : Sentence) : Sentence where
  token := default
  clauses := sentence.clauses.map (Clause.through view)

/-- The tree as a view shows it. The start tokens of the nodes are not seen. -/
def Program.through (view : View) (program : Program) : Program where
  token := default
  sentences := program.sentences.map (Sentence.through view)

/-- The tree without the start tokens of its nodes. -/
def Program.skeleton (program : Program) : Program := program.through .whole

/-- The view that shows of names and numbers the text, and of other words nothing. -/
def View.textOnly : View := fun kind token =>
  match kind with
  | .name | .number => ⟨kind, token.text, 0⟩
  | _ => default

/-- The tree without its tokens, but for the texts of names and numbers. -/
def Program.bare (program : Program) : Program := program.through .textOnly

section Through

variable {view : View}

theorem separatedBy_map {α : Type} {separator : Token.Kind} {yield : α → List Piece} {f : α → α}
    (hf : ∀ item, yield (f item) = (yield item).map (Piece.through view)) (items : List α) :
    separatedBy separator yield (items.map f) =
      (separatedBy separator yield items).map (Piece.through view) := by
  induction items with
  | nil => rfl
  | cons item items ih =>
    cases items with
    | nil => rw [List.map_singleton, separatedBy_singleton, separatedBy_singleton, hf]
    | cons next items =>
      rw [List.map_cons, List.map_cons, separatedBy_cons_cons, ← List.map_cons, ih,
        separatedBy_cons_cons, hf, List.map_append]
      rfl

theorem Placement.yield_through (word : Leaf Placement) :
    Placement.yield (word.through view Placement.kind) =
      (Placement.yield word).map (Piece.through view) := by
  obtain ⟨token, placement⟩ := word
  cases placement <;> rfl

theorem Object.yield_through (object : Object) :
    (object.through view).yield = object.yield.map (Piece.through view) := by
  cases object <;> rfl

theorem Target.yield_through (target : Target) :
    (target.through view).yield = target.yield.map (Piece.through view) := by
  cases target with
  | plain _ attr object =>
    simp only [Target.through, Target.yield, Object.yield_through, List.map_cons]
    rfl
  | area _ attr part object =>
    simp only [Target.through, Target.yield, Object.yield_through, List.map_cons]
    rfl
  | implicit | implicitArea => rfl

theorem Literal.yield_through (literal : Literal) :
    (literal.through view).yield = literal.yield.map (Piece.through view) := by
  cases literal with
  | number | color => rfl
  | tuple _ numbers =>
    simp only [Literal.through, Literal.yield, closedBy, List.map_cons, List.map_append]
    have hnumber : ∀ number, (view .number number).asNumber =
        number.asNumber.map (Piece.through view) := fun number => rfl
    rw [separatedBy_map hnumber]
    rfl

theorem Clause.yield_through (clause : Clause) :
    (clause.through view).yield = clause.yield.map (Piece.through view) := by
  cases clause with
  | declare => rfl
  | place _ first placement second =>
    simp only [Clause.through, Clause.yield, Placement.yield_through, List.map_cons,
      List.map_append]
    rfl
  | assign _ target value =>
    simp only [Clause.through, Clause.yield, Target.yield_through, Literal.yield_through,
      List.map_cons, List.map_append]
    rfl

theorem Sentence.yield_through (sentence : Sentence) :
    (sentence.through view).yield = sentence.yield.map (Piece.through view) := by
  simp only [Sentence.through, Sentence.yield, closedBy, List.map_append]
  rw [separatedBy_map Clause.yield_through]
  rfl

/-- A tree yields under a view what the tree under the view yields. -/
theorem Program.yield_through (program : Program) :
    (program.through view).yield = program.yield.map (Piece.through view) := by
  simp only [Program.through, Program.yield, List.flatMap_map, List.map_flatMap,
    Sentence.yield_through]

end Through

/-! ## No two skeletons have one yield -/

variable {view : View}

/-- Under the view, a yield can be split off the front of a longer list, and then gives the shape
of the item. -/
def PrefixFree {α : Type} (view : View) (yield : α → List Piece) (shape : α → α) : Prop :=
  ∀ a b rest rest', (yield a).map (Piece.through view) ++ rest =
    (yield b).map (Piece.through view) ++ rest' → shape a = shape b ∧ rest = rest'

theorem Leaf.through_piece_inj {α : Type} {kindOf : α → Token.Kind}
    (hkind : ∀ k k', kindOf k = kindOf k' → k = k') {a b : Leaf α}
    (h : (a.piece kindOf).through view = (b.piece kindOf).through view) :
    a.through view kindOf = b.through view kindOf := by
  obtain ⟨token, kind⟩ := a
  obtain ⟨token', kind'⟩ := b
  simp only [Leaf.piece, Piece.through, Piece.kept.injEq] at h
  obtain rfl := hkind _ _ h.1
  rw [Leaf.through, Leaf.through, h.2]

theorem Placement.prefixFree_yield :
    PrefixFree view Placement.yield (Leaf.through view Placement.kind) := by
  rintro ⟨first, placement⟩ ⟨second, placement'⟩ rest rest' h
  cases placement <;> cases placement' <;>
    simp_all [Placement.yield, Leaf.piece, Leaf.through, Placement.kind, Piece.through]

theorem Object.prefixFree_yield : PrefixFree view Object.yield (Object.through view) := by
  intro a b rest rest' h
  cases a <;> cases b <;> simp_all [Object.yield, Object.through, Piece.through]

theorem Target.prefixFree_yield : PrefixFree view Target.yield (Target.through view) := by
  intro a b rest rest' h
  have hattr : ∀ {a b : Leaf Attribute}, (a.piece .attr).through view = (b.piece .attr).through view →
      a.through view .attr = b.through view .attr := Leaf.through_piece_inj (by simp)
  have harea : ∀ {a b : Leaf Area}, (a.piece .area).through view = (b.piece .area).through view →
      a.through view .area = b.through view .area := Leaf.through_piece_inj (by simp)
  -- The forms stay apart because an object starts neither with `its` nor with an area.
  cases a with
  | plain _ attr object =>
    cases b with
    | plain _ attr' object' =>
      simp only [Target.yield, List.map_cons, List.cons_append, List.cons.injEq, true_and] at h
      obtain ⟨hobject, hrest⟩ := Object.prefixFree_yield _ _ _ _ h.2
      exact ⟨by rw [Target.through, Target.through, hattr h.1, hobject], hrest⟩
    | area | implicitArea =>
      cases object <;> simp [Target.yield, Object.yield, Leaf.piece, Piece.through] at h
    | implicit => simp [Target.yield, Leaf.piece, Piece.through] at h
  | area _ attr part object =>
    cases b with
    | plain _ attr' object' =>
      cases object' <;> simp [Target.yield, Object.yield, Leaf.piece, Piece.through] at h
    | area _ attr' part' object' =>
      simp only [Target.yield, List.map_cons, List.cons_append, List.cons.injEq, true_and] at h
      obtain ⟨hobject, hrest⟩ := Object.prefixFree_yield _ _ _ _ h.2.2
      exact ⟨by rw [Target.through, Target.through, hattr h.1, harea h.2.1, hobject], hrest⟩
    | implicit | implicitArea => simp [Target.yield, Leaf.piece, Piece.through] at h
  | implicit _ attr =>
    cases b with
    | implicit _ attr' =>
      simp only [Target.yield, List.map_cons, List.cons_append, List.cons.injEq, true_and] at h
      exact ⟨by rw [Target.through, Target.through, hattr h.1], h.2⟩
    | plain | area | implicitArea => simp [Target.yield, Leaf.piece, Piece.through] at h
  | implicitArea _ attr part =>
    cases b with
    | plain _ attr' object' =>
      cases object' <;> simp [Target.yield, Object.yield, Leaf.piece, Piece.through] at h
    | implicitArea _ attr' part' =>
      simp only [Target.yield, List.map_cons, List.cons_append, List.cons.injEq, true_and] at h
      exact ⟨by rw [Target.through, Target.through, hattr h.1, harea h.2.1], h.2.2⟩
    | area | implicit => simp [Target.yield, Leaf.piece, Piece.through] at h

section Closed

variable {α : Type} {separator close : Token.Kind} {yield : α → List Piece}

theorem closedBy_nil : closedBy separator close yield [] = [.implied close] := rfl

theorem closedBy_singleton {item : α} :
    closedBy separator close yield [item] = yield item ++ [.implied close] := by
  rw [closedBy, separatedBy_singleton]

theorem closedBy_cons_cons {item next : α} {items : List α} :
    closedBy separator close yield (item :: next :: items) =
      yield item ++ .implied separator :: closedBy separator close yield (next :: items) := by
  rw [closedBy, separatedBy_cons_cons, List.append_assoc]
  rfl

/-- A closed list of items is prefix-free if its items are, and if the word that closes it neither
starts an item nor separates two. -/
theorem PrefixFree.closedBy {shape : α → α} (hitem : PrefixFree view yield shape)
    (hne : separator ≠ close) (hstart : ∀ item, ∃ piece pieces, yield item = piece :: pieces ∧
      piece.kind ≠ close) :
    PrefixFree view (closedBy separator close yield) (List.map shape) := by
  -- An item and the closing word cannot be next at the same place.
  have hapart : ∀ item rest rest',
      (yield item).map (Piece.through view) ++ rest ≠ .implied close :: rest' := by
    intro item rest rest' h
    obtain ⟨piece, pieces, hyield, hpiece⟩ := hstart item
    rw [hyield, List.map_cons, List.cons_append] at h
    cases piece with
    | implied kind => exact hpiece (Piece.implied.inj (List.cons.inj h).1)
    | kept kind token => exact nomatch (List.cons.inj h).1
  intro items
  induction items with
  | nil =>
    intro others rest rest' h
    match others with
    | [] => exact ⟨rfl, List.append_cancel_left h⟩
    | [other] =>
      rw [closedBy_nil, closedBy_singleton, List.map_append, List.append_assoc] at h
      exact absurd h.symm (hapart _ _ _)
    | other :: next :: others =>
      rw [closedBy_nil, closedBy_cons_cons, List.map_append, List.append_assoc] at h
      exact absurd h.symm (hapart _ _ _)
  | cons item items ih =>
    intro others rest rest' h
    match items, others with
    | [], [] =>
      rw [closedBy_nil, closedBy_singleton, List.map_append, List.append_assoc] at h
      exact absurd h (hapart _ _ _)
    | next :: items, [] =>
      rw [closedBy_nil, closedBy_cons_cons, List.map_append, List.append_assoc] at h
      exact absurd h (hapart _ _ _)
    | [], [other] =>
      simp only [closedBy_singleton, List.map_append, List.append_assoc] at h
      obtain ⟨hshape, h⟩ := hitem _ _ _ _ h
      exact ⟨by rw [List.map_singleton, List.map_singleton, hshape], (List.cons.inj h).2⟩
    | [], other :: next :: others =>
      simp only [closedBy_singleton, closedBy_cons_cons, List.map_append, List.append_assoc] at h
      obtain ⟨-, h⟩ := hitem _ _ _ _ h
      exact absurd (Piece.implied.inj (List.cons.inj h).1) hne.symm
    | next :: items, [other] =>
      simp only [closedBy_singleton, closedBy_cons_cons, List.map_append, List.append_assoc] at h
      obtain ⟨-, h⟩ := hitem _ _ _ _ h
      exact absurd (Piece.implied.inj (List.cons.inj h).1) hne
    | next :: items, other :: next' :: others =>
      simp only [closedBy_cons_cons, List.map_append, List.append_assoc] at h
      obtain ⟨hshape, h⟩ := hitem _ _ _ _ h
      obtain ⟨hshapes, hrest⟩ := ih _ _ _ (List.cons.inj h).2
      exact ⟨by rw [List.map_cons, hshape, hshapes, ← List.map_cons], hrest⟩

end Closed

theorem Literal.prefixFree_yield : PrefixFree view Literal.yield (Literal.through view) := by
  have hnumber : PrefixFree view Token.asNumber (view .number) := by
    intro a b rest rest' h
    simpa [Token.asNumber, Piece.through] using h
  have hnumbers : PrefixFree view (closedBy .comma .rightParen Token.asNumber) _ :=
    hnumber.closedBy (by decide) fun number => ⟨_, [], rfl, by simp [Piece.kind]⟩
  intro a b rest rest' h
  cases a with
  | number =>
    cases b <;> simp_all [Literal.yield, Literal.through, Leaf.piece, Piece.through]
  | tuple _ numbers =>
    cases b with
    | tuple _ numbers' =>
      obtain ⟨hlist, hrest⟩ := hnumbers _ _ _ _ (List.cons.inj h).2
      exact ⟨by rw [Literal.through, Literal.through, hlist], hrest⟩
    | number | color => simp [Literal.yield, Leaf.piece, Piece.through] at h
  | color _ word =>
    cases b with
    | color _ word' =>
      obtain ⟨hword, hrest⟩ := List.cons.inj h
      exact ⟨by rw [Literal.through, Literal.through,
        Leaf.through_piece_inj (by simp) hword], hrest⟩
    | number | tuple => simp [Literal.yield, Leaf.piece, Piece.through] at h

theorem Clause.prefixFree_yield : PrefixFree view Clause.yield (Clause.through view) := by
  intro a b rest rest' h
  -- A target does not start with a name, and a placement not with a shape.
  cases a with
  | declare _ name word =>
    cases b with
    | declare _ name' word' =>
      simp only [Clause.yield, List.map_cons, List.map_nil, List.cons_append, List.cons.injEq,
        Piece.through, Piece.kept.injEq, true_and] at h
      exact ⟨by rw [Clause.through, Clause.through, h.1,
        Leaf.through_piece_inj (by simp) h.2.1], h.2.2⟩
    | place _ first placement second =>
      obtain ⟨token, placement⟩ := placement
      cases placement <;>
        simp [Clause.yield, Placement.yield, Leaf.piece, Placement.kind, Piece.through] at h
    | assign _ target value =>
      cases target <;> simp [Clause.yield, Target.yield, Leaf.piece, Piece.through] at h
  | place _ first placement second =>
    cases b with
    | declare =>
      obtain ⟨token, placement⟩ := placement
      cases placement <;>
        simp [Clause.yield, Placement.yield, Leaf.piece, Placement.kind, Piece.through] at h
    | place _ first' placement' second' =>
      simp only [Clause.yield, List.map_cons, List.map_append, List.cons_append, List.append_assoc,
        List.cons.injEq, Piece.through, Piece.kept.injEq, true_and] at h
      obtain ⟨hplacement, h'⟩ := Placement.prefixFree_yield _ _ _ _ h.2
      simp only [List.map_nil, List.nil_append, List.cons.injEq, Piece.kept.injEq, true_and] at h'
      exact ⟨by rw [Clause.through, Clause.through, h.1, hplacement, h'.1], h'.2⟩
    | assign _ target value =>
      cases target <;> simp [Clause.yield, Target.yield, Leaf.piece, Piece.through] at h
  | assign _ target value =>
    cases b with
    | declare | place =>
      cases target <;> simp [Clause.yield, Target.yield, Leaf.piece, Piece.through] at h
    | assign _ target' value' =>
      simp only [Clause.yield, List.map_append, List.append_assoc] at h
      obtain ⟨htarget, h⟩ := Target.prefixFree_yield _ _ _ _ h
      obtain ⟨hvalue, hrest⟩ := Literal.prefixFree_yield _ _ _ _ (List.cons.inj h).2
      exact ⟨by rw [Clause.through, Clause.through, htarget, hvalue], hrest⟩

theorem Sentence.prefixFree_yield : PrefixFree view Sentence.yield (Sentence.through view) := by
  have hstart : ∀ clause : Clause, ∃ piece pieces, clause.yield = piece :: pieces ∧
      piece.kind ≠ .period := by
    intro clause
    cases clause with
    | declare | place => exact ⟨_, _, rfl, by simp [Piece.kind]⟩
    | assign _ target =>
      cases target <;> exact ⟨_, _, rfl, by simp [Piece.kind, Leaf.piece]⟩
  intro a b rest rest' h
  obtain ⟨hclauses, hrest⟩ :=
    Clause.prefixFree_yield.closedBy (by decide) hstart _ _ _ _ h
  exact ⟨by rw [Sentence.through, Sentence.through, hclauses], hrest⟩

/-- Trees whose yields look the same look the same, up to the start tokens of their nodes. -/
theorem Program.through_eq_of_yield_eq {program other : Program}
    (h : program.yield.map (Piece.through view) = other.yield.map (Piece.through view)) :
    program.through view = other.through view := by
  obtain ⟨_, sentences⟩ := program
  obtain ⟨_, sentences'⟩ := other
  have hne : ∀ sentence : Sentence, sentence.yield ≠ [] := fun sentence => by
    simp [Sentence.yield, Tableau.closedBy]
  suffices sentences.map (Sentence.through view) = sentences'.map (Sentence.through view) by
    rw [Program.through, Program.through, this]
  simp only [Program.yield] at h
  induction sentences generalizing sentences' with
  | nil =>
    cases sentences' with
    | nil => rfl
    | cons sentence' sentences' => simp [hne] at h
  | cons sentence sentences ih =>
    cases sentences' with
    | nil => simp [hne] at h
    | cons sentence' sentences' =>
      rw [List.flatMap_cons, List.flatMap_cons, List.map_append, List.map_append] at h
      obtain ⟨hsentence, h⟩ := Sentence.prefixFree_yield _ _ _ _ h
      rw [List.map_cons, List.map_cons, hsentence, ih sentences' h]

/-- Trees with one yield have one skeleton. -/
theorem Program.skeleton_eq_of_yield_eq {program other : Program}
    (h : program.yield = other.yield) : program.skeleton = other.skeleton :=
  Program.through_eq_of_yield_eq (congrArg _ h)

end Tableau
