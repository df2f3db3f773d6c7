import Tableau.Program.Outline
import Tableau.Proofs.Listing.Lines

/-!
# The tree of an outline

An outline is written with one line per node, and the indentation of a line is all that shows where
the children of a node end. That is enough: a forest at some depth ends at the first line that is
indented less than its trees (`ReadsOff`). So the tree can be read off its text, if its labels stand
in one line each and do not start with a space themselves (`Outline.text_inj`).
-/

namespace Tableau

/-- The label keeps its line and its indentation. -/
structure IsLabel (label : String) : Prop where
  oneLine : OneLine label
  flush : label.toList.head? ≠ some ' '

instance (label : String) : Decidable (IsLabel label) :=
  decidable_of_iff (OneLine label ∧ label.toList.head? ≠ some ' ')
    ⟨fun h => ⟨h.1, h.2⟩, fun h => ⟨h.oneLine, h.flush⟩⟩

/-- What is put behind a label is part of the label, if it stands in one line. -/
theorem IsLabel.append {label text : String} (h : IsLabel label) (hne : label.toList ≠ [])
    (htext : OneLine text) : IsLabel (label ++ text) where
  oneLine := oneLine_append.2 ⟨h.oneLine, htext⟩
  flush := by
    have hflush := h.flush
    obtain ⟨c, more, hcons⟩ := List.exists_cons_of_ne_nil hne
    rw [hcons] at hflush
    rwa [String.toList_append, hcons]

namespace Outline

/-! ## Indentation -/

/-- The number of spaces that a line starts with. -/
def margin (line : String) : Nat := (line.toList.takeWhile (· == ' ')).length

/-- The line of a label at a depth. -/
def indented (depth : Nat) (label : String) : String :=
  String.ofList (List.replicate (2 * depth) ' ') ++ label

theorem margin_indented {label : String} (h : IsLabel label) (depth : Nat) :
    margin (indented depth label) = 2 * depth := by
  have hspaces : ∀ c ∈ List.replicate (2 * depth) ' ', (c == ' ') = true := fun c hc => by
    rw [List.eq_of_mem_replicate hc, beq_self_eq_true]
  have hlabel : ∀ c ∈ label.toList.head?, (c == ' ') = false := fun c hc =>
    beq_eq_false_iff_ne.2 fun hspace => h.flush (hspace ▸ hc)
  rw [margin, indented, String.toList_append, String.toList_ofList,
    Token.takeWhile_append_of_stop hspaces hlabel, List.length_replicate]

theorem oneLine_indented {label : String} (h : IsLabel label) (depth : Nat) :
    OneLine (indented depth label) := by
  refine oneLine_append.2 ⟨fun hfeed => ?_, h.oneLine⟩
  rw [String.toList_ofList] at hfeed
  exact absurd (List.eq_of_mem_replicate hfeed) (by decide)

/-- The lines start above the depth: the first of them is indented less. -/
def Above (depth : Nat) (lines : List String) : Prop :=
  ∀ line ∈ lines.head?, margin line < 2 * depth

theorem above_nil (depth : Nat) : Above depth [] := nofun

theorem Above.mono {depth depth' : Nat} {lines : List String} (h : Above depth lines)
    (hle : depth ≤ depth') : Above depth' lines := fun line hline => by
  have := h line hline
  omega

/-- Nothing that stands above a depth starts with a label at that depth. -/
theorem Above.ne_indented_cons {depth : Nat} {label : String} {lines rest : List String}
    (h : Above depth lines) (hlabel : IsLabel label) : lines ≠ indented depth label :: rest := by
  rintro rfl
  have hmargin := h _ rfl
  rw [margin_indented hlabel] at hmargin
  exact Nat.lt_irrefl _ hmargin

/-! ## Trees -/

/-- All nodes of the tree have labels that keep their lines and their indentation. -/
inductive WellLabelled : Outline → Prop
  | node {label : String} {children : List Outline} :
    IsLabel label → (∀ child ∈ children, WellLabelled child) → WellLabelled (node label children)

theorem wellLabelled_tip {label : String} (h : IsLabel label) : (tip label).WellLabelled :=
  .node h (List.forall_mem_nil _)

theorem forestLines_eq_flatMap (depth : Nat) (trees : List Outline) :
    forestLines depth trees = trees.flatMap (lines depth) := by
  induction trees with
  | nil => rfl
  | cons tree trees ih => rw [forestLines, ih, List.flatMap_cons]

theorem lines_node (depth : Nat) (label : String) (children : List Outline) :
    (node label children).lines depth =
      indented depth label :: children.flatMap (lines (depth + 1)) := by
  rw [lines, forestLines_eq_flatMap]
  rfl

theorem WellLabelled.oneLine_lines {tree : Outline} (h : tree.WellLabelled) :
    ∀ depth, ∀ line ∈ tree.lines depth, OneLine line := by
  induction h with
  | node hlabel _ ih =>
    intro depth
    rw [lines_node, List.forall_mem_cons]
    refine ⟨oneLine_indented hlabel depth, fun line hline => ?_⟩
    obtain ⟨child, hchild, hmem⟩ := List.mem_flatMap.1 hline
    exact ih child hchild (depth + 1) line hmem

/-- Trees at a depth, with something above it behind them, start no deeper than that. -/
theorem above_flatMap_lines {depth : Nat} {trees : List Outline} {rest : List String}
    (htrees : ∀ tree ∈ trees, tree.WellLabelled) (hrest : Above depth rest) :
    Above (depth + 1) (trees.flatMap (lines depth) ++ rest) := by
  cases trees with
  | nil => exact hrest.mono (Nat.le_succ depth)
  | cons tree trees =>
    cases htrees tree List.mem_cons_self with
    | node hlabel =>
      rw [List.flatMap_cons, lines_node]
      intro line hline
      obtain rfl := Option.some.inj hline
      rw [margin_indented hlabel]
      omega

/-- The tree can be read off lines that start with its own and then go on above its children. -/
def ReadsOff (tree : Outline) : Prop :=
  ∀ tree' depth rest rest', WellLabelled tree' → Above (depth + 1) rest →
    Above (depth + 1) rest' → tree.lines depth ++ rest = tree'.lines depth ++ rest' →
      tree = tree' ∧ rest = rest'

/-- Trees one behind the other are read off one after the other, up to the first line above them. -/
theorem readsOff_forest {trees trees' : List Outline} {depth : Nat} {rest rest' : List String}
    (htrees : ∀ tree ∈ trees, tree.WellLabelled ∧ tree.ReadsOff)
    (htrees' : ∀ tree ∈ trees', tree.WellLabelled) (hrest : Above depth rest)
    (hrest' : Above depth rest')
    (h : trees.flatMap (lines depth) ++ rest = trees'.flatMap (lines depth) ++ rest') :
    trees = trees' ∧ rest = rest' := by
  induction trees generalizing trees' with
  | nil =>
    cases trees' with
    | nil => exact ⟨rfl, h⟩
    | cons tree' trees' =>
      cases htrees' tree' List.mem_cons_self with
      | node hlabel =>
        rw [List.flatMap_cons, lines_node] at h
        exact absurd h (hrest.ne_indented_cons hlabel)
  | cons tree trees ih =>
    obtain ⟨⟨htree, hreads⟩, hothers⟩ := List.forall_mem_cons.1 htrees
    cases trees' with
    | nil =>
      cases htree with
      | node hlabel =>
        rw [List.flatMap_cons, lines_node] at h
        exact absurd h.symm (hrest'.ne_indented_cons hlabel)
    | cons tree' trees' =>
      obtain ⟨htree', hothers'⟩ := List.forall_mem_cons.1 htrees'
      rw [List.flatMap_cons, List.flatMap_cons, List.append_assoc, List.append_assoc] at h
      have habove := above_flatMap_lines (fun tree htree => (hothers tree htree).1) hrest
      have habove' := above_flatMap_lines hothers' hrest'
      obtain ⟨rfl, hbehind⟩ := hreads _ _ _ _ htree' habove habove' h
      obtain ⟨rfl, hsame⟩ := ih hothers hothers' hbehind
      exact ⟨rfl, hsame⟩

theorem WellLabelled.readsOff {tree : Outline} (h : tree.WellLabelled) : tree.ReadsOff := by
  induction h with
  | @node label children hlabel hchildren ih =>
    intro tree' depth rest rest' htree' hrest hrest' h
    cases htree' with
    | @node label' children' hlabel' hchildren' =>
      rw [lines_node, lines_node, List.cons_append, List.cons_append] at h
      obtain ⟨hline, hbehind⟩ := List.cons.inj h
      obtain rfl := (String.append_right_inj _).1 hline
      have hforest := fun child hchild => And.intro (hchildren child hchild) (ih child hchild)
      obtain ⟨rfl, hsame⟩ := readsOff_forest hforest hchildren' hrest hrest' hbehind
      exact ⟨rfl, hsame⟩

/-- A tree can be read off its text. -/
theorem text_inj {tree tree' : Outline} (h : tree.WellLabelled) (h' : tree'.WellLabelled)
    (htext : tree.text = tree'.text) : tree = tree' := by
  have hlines : tree.lines 0 = tree'.lines 0 :=
    unlines_injective (h.oneLine_lines 0) (h'.oneLine_lines 0) htext
  exact (h.readsOff tree' 0 [] [] h' (above_nil 1) (above_nil 1) (by rw [hlines])).1

end Outline

end Tableau
