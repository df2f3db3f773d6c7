import Tableau.Proofs.Program.Reader

/-!
# Where nodes stand

The parts of a node are words of its own and further nodes, in the order of the rule that reads them
(`Node.parts`). With the number of tokens of each part the nodes among them get their `Span`s of
places, side by side from the first place of the node on (`Node.children`).

`Node.ReadBetween` ties this to the parser: the rule of the node, started at some tokens, answers
with the node and leaves others. A rule reads the parts of its node one behind the other
(`Node.ReadBetween.parts`). So each node of a tree that was read is read from its span, and starts
there at its start token (`Program.nodes_start_their_spans`).
-/

namespace Tableau

/-! ## Nodes and their parts -/

/-- A node of a tree, one constructor for each rule of the grammar and each kind of word that is
kept. -/
inductive Node
  | program (node : Program)
  | sentence (node : Sentence)
  | clause (node : Clause)
  | target (node : Target)
  | object (node : Object)
  | literal (node : Literal)
  | name (token : Token)
  | number (token : Token)
  | shape (word : Leaf Shape.Kind)
  | placement (word : Leaf Placement)
  | attr (word : Leaf Attribute)
  | area (word : Leaf Area)
  | color (word : Leaf Color)
deriving DecidableEq, Repr

/-- What the rule of a node reads next: a word that the tree does not keep as a node, or a node. -/
inductive Part
  | word (kind : Token.Kind)
  | node (node : Node)

/-- Nodes with a word between any two. -/
def Part.joined (separator : Token.Kind) (nodes : List Node) : List Part :=
  (nodes.map Part.node).intersperse (.word separator)

namespace Node

/-- The token that a node keeps. -/
def token : Node → Token
  | program node => node.token
  | sentence node => node.token
  | clause node => node.token
  | target node => node.token
  | object node => node.token
  | literal node => node.token
  | name token | number token => token
  | shape word => word.token
  | placement word => word.token
  | attr word => word.token
  | area word => word.token
  | color word => word.token

/-- The number of tokens of a node. The period behind a sentence is none of the sentence. -/
def width : Node → Nat
  | program node => node.yield.length
  | sentence node => (separatedBy .and Clause.yield node.clauses).length
  | clause node => node.yield.length
  | target node => node.yield.length
  | object node => node.yield.length
  | literal node => node.yield.length
  | placement word => (Placement.yield word).length
  | name _ | number _ | shape _ | attr _ | area _ | color _ => 1

/-- The right side of the rule of a node. -/
def parts : Node → List Part
  | program node => node.sentences.flatMap fun each => [.node (sentence each), .word .period]
  | sentence node => Part.joined .and (node.clauses.map clause)
  | clause (.declare _ first word) => [.node (name first), .word .is, .node (shape word)]
  | clause (.place _ first word second) =>
    [.node (name first), .word .is, .node (placement word), .node (name second)]
  | clause (.assign _ left right) => [.node (target left), .word .is, .node (literal right)]
  | target (.plain _ word of) => [.node (attr word), .word .of, .node (object of)]
  | target (.area _ word part of) =>
    [.node (attr word), .word .of, .node (area part), .word .of, .node (object of)]
  | target (.implicit _ word) => [.word .its, .node (attr word)]
  | target (.implicitArea _ word part) =>
    [.node (attr word), .word .of, .word .its, .node (area part)]
  | object (.shape _ word) => [.node (name word)]
  | object (.canvas _) => [.word .canvas]
  | literal (.number _ digits) => [.node (number digits)]
  | literal (.tuple _ numbers) =>
    .word .leftParen :: (Part.joined .comma (numbers.map number) ++ [.word .rightParen])
  | literal (.color _ word) => [.node (color word)]
  | name _ => [.word .name]
  | number _ => [.word .number]
  | shape word => [.word (.shape word.kind)]
  | placement ⟨_, .front⟩ => [.word .within, .word .front, .word .of]
  | placement ⟨_, .behind⟩ => [.word .behind]
  | attr word => [.word (.attr word.kind)]
  | area word => [.word (.area word.kind)]
  | color word => [.word (.color word.kind)]

end Node

def Part.width : Part → Nat
  | word _ => 1
  | node child => child.width

/-- The number of tokens of all parts. -/
def Part.total : List Part → Nat
  | [] => 0
  | part :: parts => part.width + total parts

/-! ## Spans -/

/-- The place of a first token, and the place behind a last one. -/
structure Span where
  start : Nat
  stop : Nat
deriving DecidableEq, Repr

namespace Span

def Inside (inner outer : Span) : Prop := outer.start ≤ inner.start ∧ inner.stop ≤ outer.stop

def Before (first second : Span) : Prop := first.stop ≤ second.start

end Span

/-- The nodes among the parts, if the first part starts at the given place. -/
def Part.placed : Nat → List Part → List (Node × Span)
  | _, [] => []
  | start, word _ :: parts => placed (start + 1) parts
  | start, node child :: parts =>
    (child, ⟨start, start + child.width⟩) :: placed (start + child.width) parts

namespace Node

/-- The nodes that a node is made of, if it starts at the given place. -/
def children (node : Node) (start : Nat) : List (Node × Span) := Part.placed start node.parts

/-- The node is the root, which starts at the first place, or it is somewhere below it. -/
inductive Occurs (root : Node) : Node → Span → Prop
  | root : Occurs root root ⟨0, root.width⟩
  | child {node inner : Node} {outer span : Span} :
    Occurs root node outer → (inner, span) ∈ node.children outer.start → Occurs root inner span

end Node

section Placed

variable {start : Nat} {parts : List Part}

/-- Parts stand inside the span of all of them. -/
theorem Part.inside_of_mem_placed {child : Node × Span} (h : child ∈ placed start parts) :
    child.2.Inside ⟨start, start + total parts⟩ := by
  unfold Span.Inside
  fun_induction placed start parts with
  | case1 => nomatch h
  | case2 start kind parts ih =>
    have hinside := ih h
    simp only [total, width] at *
    omega
  | case3 start first parts ih =>
    simp only [total, width] at *
    rcases List.mem_cons.1 h with rfl | h
    · simp only
      omega
    · have hinside := ih h
      omega

theorem Part.stop_of_mem_placed {child : Node × Span} (h : child ∈ placed start parts) :
    child.2.stop = child.2.start + child.1.width := by
  fun_induction placed start parts with
  | case1 => nomatch h
  | case2 start kind parts ih => exact ih h
  | case3 start first parts ih =>
    rcases List.mem_cons.1 h with rfl | h
    · rfl
    · exact ih h

/-- Parts stand one behind the other. -/
theorem Part.pairwise_placed (start : Nat) (parts : List Part) :
    ((placed start parts).map Prod.snd).Pairwise Span.Before := by
  fun_induction placed start parts with
  | case1 => exact .nil
  | case2 start kind parts ih => exact ih
  | case3 start first parts ih =>
    rw [List.map_cons, List.pairwise_cons]
    refine ⟨fun span hspan => ?_, ih⟩
    obtain ⟨child, hchild, rfl⟩ := List.mem_map.1 hspan
    exact (inside_of_mem_placed hchild).1

end Placed

/-! ## Nodes and the parser -/

namespace Node

/-- The rule of the node, started at the tokens before it, answers with the node and leaves those
after it. The rule of a sentence goes on with the period behind it, and the rule of a program with
the end marker. -/
def ReadBetween (before after : List Token) : Node → Prop
  | program node => after <:+ before ∧
    ∃ marker rest, after = marker :: rest ∧ Parser.program before = .ok (node, rest)
  | sentence node => after <:+ before ∧
    ∃ period rest, after = period :: rest ∧ Parser.sentence before = .ok (node, rest)
  | clause node => Parser.clause before = .ok (node, after)
  | target node => Parser.target before = .ok (node, after)
  | object node => Parser.object before = .ok (node, after)
  | literal node => Parser.literal before = .ok (node, after)
  | name token => Parser.token .name before = .ok (token, after)
  | number token => Parser.token .number before = .ok (token, after)
  | shape word => Parser.shape before = .ok (word, after)
  | placement word => Parser.placement before = .ok (word, after)
  | attr word => Parser.attr before = .ok (word, after)
  | area word => Parser.area before = .ok (word, after)
  | color word => Parser.color before = .ok (word, after)

/-- The tokens of the span of a node are a spelling of it. -/
def SpelledBy (tokens : List Token) : Node → Prop
  | program node => node.SpelledBy tokens
  | sentence node => tokens.head? = some node.token ∧
    Separated .and Clause.SpelledBy node.clauses tokens
  | clause node => node.SpelledBy tokens
  | target node => node.SpelledBy tokens
  | object node => node.SpelledBy tokens
  | literal node => node.SpelledBy tokens
  | name token => Token.SpelledBy .name token tokens
  | number token => Token.SpelledBy .number token tokens
  | shape word => Token.SpelledBy (.shape word.kind) word.token tokens
  | placement word => Placement.SpelledBy word tokens
  | attr word => Token.SpelledBy (.attr word.kind) word.token tokens
  | area word => Token.SpelledBy (.area word.kind) word.token tokens
  | color word => Token.SpelledBy (.color word.kind) word.token tokens

/-- What has to come behind a node. -/
def ClosedBy (after : List Token) : Node → Prop
  | program _ => ∃ marker ∈ after.head?, marker.kind = .endOfInput
  | sentence _ => ∃ period ∈ after.head?, period.kind = .period
  | _ => True

variable {node : Node} {before used after : List Token}

theorem eq_of_suffix {first second : Token} {rest : List Token}
    (h : first :: rest <:+ used ++ second :: rest) : first = second := by
  have hsuffix : first :: rest <:+ second :: rest :=
    List.suffix_of_suffix_length_le h (List.suffix_append _ _) (Nat.le_refl _)
  exact (List.cons.inj (hsuffix.eq_of_length rfl)).1

/-- What a rule reads that asks for nothing behind its node. -/
theorem eq_ok_of_reads {α : Type} {rule : Parser α} {spelled : α → List Token → Prop}
    (h : Parser.Reads rule spelled) {item : α} : rule before = .ok (item, after) ↔
      ∃ used, before = used ++ after ∧ spelled item used ∧ True := by
  simpa only [and_true] using h before item after

/-- A node is read exactly from its spellings. -/
theorem readBetween_iff : node.ReadBetween before after ↔
    ∃ used, before = used ++ after ∧ node.SpelledBy used ∧ node.ClosedBy after := by
  cases node with
  | program node =>
    constructor
    · rintro ⟨hsuffix, marker, rest, rfl, hread⟩
      obtain ⟨used, marker', rfl, hmarker, hused⟩ := Parser.program_eq_ok.1 hread
      -- The marker that was read with the program is the one that comes after it.
      obtain rfl := eq_of_suffix hsuffix
      exact ⟨used, rfl, hused, marker, rfl, hmarker⟩
    · rintro ⟨used, rfl, hused, marker, hfirst, hmarker⟩
      obtain ⟨rest, rfl⟩ := List.head?_eq_some_iff.1 hfirst
      exact ⟨List.suffix_append _ _, marker, rest, rfl,
        Parser.program_eq_ok.2 ⟨used, marker, rfl, hmarker, hused⟩⟩
  | sentence node =>
    constructor
    · rintro ⟨hsuffix, period, rest, rfl, hread⟩
      obtain ⟨used, rfl, hused⟩ := (Parser.reads_sentence _ _ _).1 hread
      cases hused with
      | @intro first period' clauses others hclauses hperiod =>
        rw [List.append_assoc] at hsuffix ⊢
        obtain rfl := eq_of_suffix hsuffix
        exact ⟨first :: others, rfl, ⟨rfl, hclauses⟩, period, rfl, hperiod⟩
    · rintro ⟨used, rfl, ⟨hstart, hclauses⟩, period, hfirst, hperiod⟩
      obtain ⟨rest, rfl⟩ := List.head?_eq_some_iff.1 hfirst
      obtain ⟨others, rfl⟩ := List.head?_eq_some_iff.1 hstart
      exact ⟨List.suffix_append _ _, period, rest, rfl, (Parser.reads_sentence _ _ _).2
        ⟨node.token :: others ++ [period], List.append_cons _ _ _, .intro hclauses hperiod⟩⟩
  | clause => exact eq_ok_of_reads Parser.reads_clause
  | target => exact eq_ok_of_reads Parser.reads_target
  | object => exact eq_ok_of_reads Parser.reads_object
  | literal => exact eq_ok_of_reads Parser.reads_literal
  | name | number => exact eq_ok_of_reads (Parser.reads_token _)
  | shape => exact eq_ok_of_reads Parser.selects_shape.reads
  | placement => exact eq_ok_of_reads Parser.reads_placement
  | attr => exact eq_ok_of_reads Parser.selects_attr.reads
  | area => exact eq_ok_of_reads Parser.selects_area.reads
  | color => exact eq_ok_of_reads Parser.selects_color.reads

/-- A spelling of a node starts at its token. -/
theorem SpelledBy.head (h : node.SpelledBy used) : used.head? = some node.token := by
  cases node with
  | program node => cases h; rfl
  | sentence node => exact h.1
  | clause node => obtain ⟨others, rfl⟩ := Clause.SpelledBy.head h; rfl
  | target node => obtain ⟨others, rfl, -⟩ := Target.SpelledBy.head h; rfl
  | object node => obtain ⟨others, rfl⟩ := Object.SpelledBy.head h; rfl
  | literal node => obtain ⟨others, rfl⟩ := Literal.SpelledBy.head h; rfl
  | placement word => obtain ⟨others, rfl, -⟩ := Placement.SpelledBy.head h; rfl
  | name | number | shape | attr | area | color => obtain ⟨rfl, -⟩ := h; rfl

theorem SpelledBy.length (h : node.SpelledBy used) : used.length = node.width := by
  cases node with
  | program node => rw [width, Program.SpelledBy.yield h, List.length_map]
  | sentence node =>
    rw [width, h.2.yield rfl fun _ _ hclause => hclause.yield, List.length_map]
  | clause node => rw [width, Clause.SpelledBy.yield h, List.length_map]
  | target node => rw [width, Target.SpelledBy.yield h, List.length_map]
  | object node => rw [width, Object.SpelledBy.yield h, List.length_map]
  | literal node => rw [width, Literal.SpelledBy.yield h, List.length_map]
  | placement word => rw [width, Placement.SpelledBy.yield h, List.length_map]
  | name | number | shape | attr | area | color => obtain ⟨rfl, -⟩ := h; rfl

/-- A node is read from its width of tokens, of which the first one is its own. -/
theorem ReadBetween.exists_cons (h : node.ReadBetween before after) :
    ∃ others, before = node.token :: others ++ after ∧ others.length + 1 = node.width := by
  obtain ⟨used, rfl, hused, -⟩ := readBetween_iff.1 h
  obtain ⟨others, rfl⟩ := List.head?_eq_some_iff.1 hused.head
  exact ⟨others, rfl, hused.length⟩

end Node

/-! ## Parts are read in turn -/

namespace Part

/-- The parts are read one behind the other, from the tokens before the first to those after the
last. -/
inductive ReadInTurn : List Part → List Token → List Token → Prop
  | nil {after : List Token} : ReadInTurn [] after after
  | word {kind : Token.Kind} {parts : List Part} {token : Token} {before after : List Token} :
    token.kind = kind → ReadInTurn parts before after →
      ReadInTurn (word kind :: parts) (token :: before) after
  | node {child : Node} {parts : List Part} {before middle after : List Token} :
    child.ReadBetween before middle → ReadInTurn parts middle after →
      ReadInTurn (node child :: parts) before after

namespace ReadInTurn

variable {parts : List Part} {before middle after used : List Token}

theorem append {others : List Part} (h : ReadInTurn parts before middle)
    (hothers : ReadInTurn others middle after) : ReadInTurn (parts ++ others) before after := by
  induction h with
  | nil => exact hothers
  | word hkind _ ih => exact .word hkind (ih hothers)
  | node hchild _ ih => exact .node hchild (ih hothers)

theorem child {child : Node} (h : child.SpelledBy used) (hclosed : child.ClosedBy middle)
    (hparts : ReadInTurn parts middle after) :
    ReadInTurn (.node child :: parts) (used ++ middle) after :=
  .node (Node.readBetween_iff.2 ⟨used, rfl, h, hclosed⟩) hparts

theorem leaf {leaf : Node} {token : Token} (h : leaf.SpelledBy [token])
    (hclosed : leaf.ClosedBy middle) (hparts : ReadInTurn parts middle after) :
    ReadInTurn (.node leaf :: parts) (token :: middle) after :=
  child h hclosed hparts

theorem joined {α : Type} {separator : Token.Kind} {spelled : α → List Token → Prop}
    (asNode : α → Node) (hitem : ∀ item used, spelled item used → (asNode item).SpelledBy used)
    (hclosed : ∀ item after, (asNode item).ClosedBy after) {items : List α}
    (h : Separated separator spelled items used) :
    ReadInTurn (Part.joined separator (items.map asNode)) (used ++ after) after := by
  induction h with
  | one hnode => exact child (hitem _ _ hnode) (hclosed _ _) .nil
  | @more item items tokens others between hnode hbetween hmore ih =>
    -- More items come, so the separator stands between the first of them and this one.
    have hparts : Part.joined separator ((item :: items).map asNode) =
        .node (asNode item) :: .word separator :: Part.joined separator (items.map asNode) := by
      cases hmore <;> rfl
    rw [hparts, List.append_assoc, List.cons_append]
    exact child (hitem _ _ hnode) (hclosed _ _) (.word hbetween ih)

theorem sentences {sentences : List Sentence} (h : Repeated Sentence.SpelledBy sentences used) :
    ReadInTurn (sentences.flatMap fun each => [.node (.sentence each), .word .period])
      (used ++ after) after := by
  have hone : ∀ sentence used rest, Sentence.SpelledBy sentence used →
      ReadInTurn [.node (.sentence sentence), .word .period] (used ++ rest) rest := by
    rintro sentence used rest ⟨hclauses, hperiod⟩
    rw [List.append_assoc]
    exact child ⟨rfl, hclauses⟩ ⟨_, rfl, hperiod⟩ (.word hperiod .nil)
  induction h with
  | one hsentence => exact hone _ _ _ hsentence
  | more hsentence _ ih =>
    rw [List.flatMap_cons, List.append_assoc]
    exact (hone _ _ _ hsentence).append ih

end ReadInTurn

end Part

namespace Node

variable {node : Node} {before used after : List Token}

/-- A rule reads the parts of its node in turn. -/
theorem SpelledBy.parts (h : node.SpelledBy used) (hclosed : node.ClosedBy after) :
    Part.ReadInTurn node.parts (used ++ after) after := by
  cases node with
  | program node =>
    cases h with
    | intro hsentences => exact .sentences hsentences
  | sentence node => exact .joined clause (fun _ _ hclause => hclause) (fun _ _ => trivial) h.2
  | clause node =>
    cases h with
    | declare hname his hword =>
      exact .leaf ⟨rfl, hname⟩ trivial (.word his (.leaf ⟨rfl, hword⟩ trivial .nil))
    | place hname his hplacement hsecond =>
      rw [List.append_assoc]
      exact .leaf ⟨rfl, hname⟩ trivial (.word his
        (.child hplacement trivial (.leaf ⟨rfl, hsecond⟩ trivial .nil)))
    | assign htarget his hvalue =>
      rw [List.append_assoc]
      exact .child htarget trivial (.word his (.child hvalue trivial .nil))
  | target node =>
    cases h with
    | implicit hits hattr => exact .word hits (.leaf ⟨rfl, hattr⟩ trivial .nil)
    | implicitArea hattr hof hits hpart =>
      exact .leaf ⟨rfl, hattr⟩ trivial (.word hof (.word hits (.leaf ⟨rfl, hpart⟩ trivial .nil)))
    | area hattr hof hpart hof' hobject =>
      exact .leaf ⟨rfl, hattr⟩ trivial (.word hof (.leaf ⟨rfl, hpart⟩ trivial
        (.word hof' (.child hobject trivial .nil))))
    | plain hattr hof hobject =>
      exact .leaf ⟨rfl, hattr⟩ trivial (.word hof (.child hobject trivial .nil))
  | object node =>
    cases h with
    | shape hname => exact .leaf ⟨rfl, hname⟩ trivial .nil
    | canvas hcanvas => exact .word hcanvas .nil
  | literal node =>
    cases h with
    | number hnumber => exact .leaf ⟨rfl, hnumber⟩ trivial .nil
    | tuple hleft hnumbers hright =>
      rw [List.append_assoc]
      exact .word hleft ((Part.ReadInTurn.joined number (fun _ _ hnumber => hnumber)
        (fun _ _ => trivial) hnumbers).append (.word hright .nil))
    | color hcolor => exact .leaf ⟨rfl, hcolor⟩ trivial .nil
  | placement word =>
    cases h with
    | front hwithin hfront hof => exact .word hwithin (.word hfront (.word hof .nil))
    | behind hbehind => exact .word hbehind .nil
  | name | number | shape | attr | area | color =>
    obtain ⟨rfl, hkind⟩ := h
    exact .word hkind .nil

theorem ReadBetween.parts (h : node.ReadBetween before after) :
    Part.ReadInTurn node.parts before after := by
  obtain ⟨used, rfl, hused, hclosed⟩ := readBetween_iff.1 h
  exact hused.parts hclosed

end Node

/-! ## Spans are read -/

section Spans

variable {stream after : List Token} {start : Nat} {parts : List Part}

theorem Part.ReadInTurn.length {before : List Token} (h : ReadInTurn parts before after) :
    before.length = after.length + total parts := by
  induction h with
  | nil => rfl
  | word _ _ ih =>
    rw [List.length_cons, ih, total, width]
    omega
  | node hchild _ ih =>
    obtain ⟨others, rfl, hwidth⟩ := hchild.exists_cons
    rw [List.length_append, List.length_cons, ih, hwidth, total, width]
    omega

/-- A node is as wide as its parts together. -/
theorem Node.ReadBetween.width_eq {node : Node} {before : List Token}
    (h : node.ReadBetween before after) : node.width = Part.total node.parts := by
  have hparts := h.parts.length
  obtain ⟨others, rfl, hwidth⟩ := h.exists_cons
  rw [List.length_append, List.length_cons] at hparts
  omega

/-- Of parts that are read in turn each node is read from its span. -/
theorem Part.ReadInTurn.readBetween (h : ReadInTurn parts (stream.drop start) after) :
    ∀ child ∈ placed start parts,
      child.1.ReadBetween (stream.drop child.2.start) (stream.drop child.2.stop) := by
  generalize hbefore : stream.drop start = before at h
  induction h generalizing start with
  | nil => exact fun child hchild => nomatch hchild
  | @word kind parts token before after _ _ ih =>
    have hrest : stream.drop (start + 1) = before := by
      rw [← List.drop_drop, hbefore, List.drop_one, List.tail_cons]
    exact ih hrest
  | @node child parts before middle after hchild _ ih =>
    obtain ⟨others, rfl, hwidth⟩ := hchild.exists_cons
    have hrest : stream.drop (start + child.width) = middle := by
      rw [← List.drop_drop, hbefore, ← hwidth]
      exact List.drop_left
    refine List.forall_mem_cons.2 ⟨?_, ih hrest⟩
    rw [hbefore, hrest]
    exact hchild

variable {root node : Node} {span : Span}

/-- The parts of a node that is read from its span stand inside that. -/
theorem Node.ReadBetween.inside_of_mem_children {inner : Node} {span' : Span}
    (h : node.ReadBetween (stream.drop span.start) after)
    (hstop : span.stop = span.start + node.width)
    (hchild : (inner, span') ∈ node.children span.start) : span'.Inside span := by
  have hinside := Part.inside_of_mem_placed hchild
  rw [← h.width_eq, ← hstop] at hinside
  exact hinside

/-- All nodes of a tree that is read from the front of a stream are read from their spans. -/
theorem Node.Occurs.readBetween (h : root.Occurs node span)
    (hroot : root.ReadBetween stream (stream.drop root.width)) :
    node.ReadBetween (stream.drop span.start) (stream.drop span.stop) ∧
      span.stop = span.start + node.width ∧ span.stop ≤ root.width := by
  induction h with
  | root => exact ⟨hroot, (Nat.zero_add _).symm, Nat.le_refl _⟩
  | child _ hchild ih =>
    obtain ⟨hread, hstop, hbound⟩ := ih
    have hinside := hread.inside_of_mem_children hstop hchild
    exact ⟨hread.parts.readBetween _ hchild, Part.stop_of_mem_placed hchild,
      Nat.le_trans hinside.2 hbound⟩

end Spans

namespace Program

/-- A tree is read from all tokens in front of the first end marker. -/
theorem readBetween_of_parse {tokens : List Token} {program : Program}
    (h : parse tokens = .ok program) :
    let stream := tokens ++ [endMarker tokens]
    (Node.program program).ReadBetween stream (stream.drop (Node.program program).width) ∧
      (Node.program program).width = (body tokens).length := by
  intro stream
  obtain ⟨marker, rest, hstream, hmarker⟩ := exists_marker tokens (endMarker tokens) rfl
  have hspelled : (Node.program program).SpelledBy (body tokens) := parse_eq_ok.1 h
  have hdrop : stream.drop (Node.program program).width = marker :: rest := by
    rw [← hspelled.length]
    exact (congrArg (List.drop _) hstream).trans List.drop_left
  refine ⟨Node.readBetween_iff.2 ⟨body tokens, ?_, hspelled, ?_⟩, hspelled.length.symm⟩
  · rw [hdrop]
    exact hstream
  · rw [hdrop]
    exact ⟨marker, rfl, hmarker⟩

/-- **Nodes stand where they start**: each node of the tree of a token list is read from its span of
the tokens, and the token that it keeps is the first one there. The nodes that it is made of stand
inside its span, one behind the other. -/
theorem nodes_start_their_spans {tokens : List Token} {program : Program}
    (h : parse tokens = .ok program) :
    let stream := tokens ++ [endMarker tokens]
    ∀ node span, (Node.program program).Occurs node span →
      tokens[span.start]? = some node.token ∧
        span.start < span.stop ∧ span.stop ≤ (body tokens).length ∧
        node.ReadBetween (stream.drop span.start) (stream.drop span.stop) ∧
        (∀ child ∈ node.children span.start, child.2.Inside span) ∧
        ((node.children span.start).map Prod.snd).Pairwise Span.Before := by
  intro stream node span hnode
  obtain ⟨hroot, hwidth⟩ := readBetween_of_parse h
  obtain ⟨hread, hstop, hbound⟩ := hnode.readBetween hroot
  obtain ⟨others, hsplit, hothers⟩ := hread.exists_cons
  have hlength : (body tokens).length ≤ tokens.length := (List.takeWhile_prefix _).length_le
  refine ⟨?_, by omega, by omega, hread, fun child hchild =>
    hread.inside_of_mem_children hstop hchild, Part.pairwise_placed _ _⟩
  have hfirst : stream[span.start]? = some node.token := by
    rw [← List.head?_drop, hsplit]
    rfl
  rwa [List.getElem?_append_left (by omega)] at hfirst

/-- The three words of a placement in the second clause of a sentence. -/
theorem nodes_start_their_spans_of_placement :
    let first : Token := ⟨.name, "A", 1⟩
    let within : Token := ⟨.within, "in", 2⟩
    let second : Token := ⟨.name, "B", 3⟩
    let circle : Token := ⟨.shape .circle, "circle", 1⟩
    let tokens : List Token := [first, ⟨.is, "is", 1⟩, circle, ⟨.and, "and", 1⟩, first,
      ⟨.is, "is", 1⟩, within, ⟨.front, "front", 2⟩, ⟨.of, "of", 2⟩, second, ⟨.period, ".", 3⟩]
    let placement : Leaf Placement := ⟨within, .front⟩
    let clause : Clause := .place first first placement second
    let sentence : Sentence := ⟨first, [.declare first first ⟨circle, .circle⟩, clause]⟩
    let program : Program := ⟨first, [sentence]⟩
    parse tokens = .ok program ∧
      (Node.program program).Occurs (.clause clause) ⟨4, 10⟩ ∧
      ((Node.clause clause).children 4).map Prod.snd = [⟨4, 5⟩, ⟨6, 9⟩, ⟨9, 10⟩] ∧
      (Node.program program).Occurs (.placement placement) ⟨6, 9⟩ ∧
      tokens[6]? = some within ∧
      (Node.placement placement).ReadBetween ((tokens ++ [endMarker tokens]).drop 6)
        ((tokens ++ [endMarker tokens]).drop 9) := by
  intro first within second circle tokens placement clause sentence program
  have hdeclare : Clause.SpelledBy _ (tokens.take 3) := .declare rfl rfl rfl
  have hplace : clause.SpelledBy ((tokens.drop 4).take 6) :=
    .place rfl rfl (.front rfl rfl rfl) rfl
  have hparse : parse tokens = .ok program :=
    parse_eq_ok.2 (.intro (.one (.intro (.more hdeclare rfl (.one hplace)) rfl)))
  have hsentence : (Node.program program).Occurs (.sentence sentence) ⟨0, 10⟩ :=
    .child .root (by decide +kernel)
  have hclause : (Node.program program).Occurs (.clause clause) ⟨4, 10⟩ :=
    .child hsentence (by decide +kernel)
  have hplacement : (Node.program program).Occurs (.placement placement) ⟨6, 9⟩ :=
    .child hclause (by decide +kernel)
  obtain ⟨htoken, -, -, hread, -⟩ := nodes_start_their_spans hparse _ _ hplacement
  exact ⟨hparse, hclause, by decide +kernel, hplacement, htoken, hread⟩

end Program

end Tableau
