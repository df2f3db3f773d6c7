import Tableau.Proofs.Program.Steps
import Tableau.Proofs.Program.Yield

/-!
# What the parser accepts

A reader `Reads` a relation if it answers with a node exactly where the tokens in front of the rest
are a spelling of that node. With one token of lookahead every rule reads its spellings whatever the
rest is; only a list that is not yet closed has to look at it (`separated_eq_ok`, `repeated_eq_ok`).
So a token list has a tree if and only if the tokens before its first end marker spell that tree
(`Program.parse_eq_ok`).

Where a rule has several branches, there is a lemma for each of them that says what the rule answers
on tokens that select it. Both directions go through these lemmas: from an answer to a spelling by
the cases of the lookahead, and from a spelling to the answer by the constructors of the relation.
-/

namespace Tableau

namespace Parser

/-! ## One reader behind the other -/

variable {α β : Type} {tokens rest : List Token}

/-- The reader answers with a node exactly where the tokens in front of the rest spell it. -/
def Reads (p : Parser α) (spelled : α → List Token → Prop) : Prop :=
  ∀ tokens node rest, p tokens = .ok (node, rest) ↔
    ∃ used, tokens = used ++ rest ∧ spelled node used

section Reads

variable {p : Parser α} {spelled : α → List Token → Prop}

theorem Reads.intro
    (hspelled : ∀ {tokens node rest}, p tokens = .ok (node, rest) →
      ∃ used, tokens = used ++ rest ∧ spelled node used)
    (hread : ∀ {node used}, spelled node used → ∀ rest, p (used ++ rest) = .ok (node, rest)) :
    Reads p spelled := by
  intro tokens node rest
  refine ⟨hspelled, ?_⟩
  rintro ⟨used, rfl, hused⟩
  exact hread hused rest

theorem Reads.read (h : Reads p spelled) {node : α} {used : List Token} (hused : spelled node used)
    (rest : List Token) : p (used ++ rest) = .ok (node, rest) := (h _ _ _).2 ⟨used, rfl, hused⟩

/-- A reader that takes one token and no more reads the spellings by that token. -/
theorem reads_of_eq_ok {kindOf : α → Token.Kind} {tokenOf : α → Token}
    (h : ∀ tokens node rest, p tokens = .ok (node, rest) ↔
      tokens = tokenOf node :: rest ∧ (tokenOf node).kind = kindOf node) :
    Reads p fun node => Token.SpelledBy (kindOf node) (tokenOf node) := by
  intro tokens node rest
  rw [h]
  constructor
  · rintro ⟨rfl, hkind⟩
    exact ⟨[tokenOf node], rfl, rfl, hkind⟩
  · rintro ⟨used, rfl, rfl, hkind⟩
    exact ⟨rfl, hkind⟩

end Reads

theorem peek_bind_eq_ok {q : Token → Parser β} {answer : β × List Token} :
    (peek >>= q) tokens = .ok answer ↔
      ∃ first others, tokens = first :: others ∧ q first (first :: others) = .ok answer := by
  obtain ⟨node, rest⟩ := answer
  rw [bind_eq_ok]
  cases tokens with
  | nil => simp [peek]
  | cons head others => simp [peek, and_assoc]

theorem token_eq_ok {kind : Token.Kind} {found : Token} :
    token kind tokens = .ok (found, rest) ↔ tokens = found :: rest ∧ found.kind = kind := by
  cases tokens with
  | nil => simp [token]
  | cons head others =>
    simp only [token]
    split
    · next h =>
      simp only [Except.ok.injEq, Prod.mk.injEq, List.cons.injEq]
      constructor
      · rintro ⟨rfl, rfl⟩
        exact ⟨⟨rfl, rfl⟩, h⟩
      · exact fun h' => h'.1
    · next h =>
      simp only [reduceCtorEq, List.cons.injEq, false_iff, not_and, and_imp]
      rintro rfl -
      exact h

theorem token_bind_eq_ok {kind : Token.Kind} {q : Token → Parser β} {answer : β × List Token} :
    (token kind >>= q) tokens = .ok answer ↔
      ∃ found others, tokens = found :: others ∧ found.kind = kind ∧
        q found others = .ok answer := by
  obtain ⟨node, rest⟩ := answer
  simp only [bind_eq_ok, token_eq_ok, and_assoc]

theorem reads_token (kind : Token.Kind) : Reads (token kind) (Token.SpelledBy kind) :=
  reads_of_eq_ok fun _ _ _ => token_eq_ok

/-! ## Words of the vocabulary -/

/-- The reader takes a token exactly if its kind is that of a word, and answers with the word. -/
def Selects (p : Parser (Leaf α)) (kindOf : α → Token.Kind) : Prop :=
  ∀ tokens word rest, p tokens = .ok (word, rest) ↔
    tokens = word.token :: rest ∧ word.token.kind = kindOf word.kind

theorem selects_leaf {select : Token.Kind → Option α} {kindOf : α → Token.Kind}
    (hselect : ∀ kind a, select kind = some a ↔ kind = kindOf a) :
    Selects (leaf select) kindOf := by
  rintro tokens ⟨found, a⟩ rest
  cases tokens with
  | nil => simp [leaf]
  | cons head others =>
    simp only [leaf, List.cons.injEq]
    constructor
    · intro h
      split at h
      · next hfound =>
        cases h
        exact ⟨⟨rfl, rfl⟩, (hselect _ _).1 hfound⟩
      · cases h
    · rintro ⟨⟨rfl, rfl⟩, hkind⟩
      rw [(hselect _ _).2 hkind]

theorem selects_shape : Selects shape .shape :=
  selects_leaf fun kind word => by split <;> simp_all

theorem selects_attr : Selects attr .attr :=
  selects_leaf fun kind word => by split <;> simp_all

theorem selects_area : Selects area .area :=
  selects_leaf fun kind word => by split <;> simp_all

theorem selects_color : Selects color .color :=
  selects_leaf fun kind word => by split <;> simp_all

section Selects

variable {p : Parser (Leaf α)} {kindOf : α → Token.Kind}

theorem Selects.take (h : Selects p kindOf) {word : Token} {a : α} (hword : word.kind = kindOf a) :
    p (word :: tokens) = .ok (⟨word, a⟩, tokens) := (h _ _ _).2 ⟨rfl, hword⟩

theorem Selects.bind_eq_ok (h : Selects p kindOf) {q : Leaf α → Parser β}
    {answer : β × List Token} :
    (p >>= q) tokens = .ok answer ↔
      ∃ word others, tokens = word.token :: others ∧ word.token.kind = kindOf word.kind ∧
        q word others = .ok answer := by
  obtain ⟨node, rest⟩ := answer
  simp only [Parser.bind_eq_ok, h _ _ _, and_assoc]

/-- A word of the vocabulary is read as its token. -/
theorem Selects.reads (h : Selects p kindOf) :
    Reads p fun word => Token.SpelledBy (kindOf word.kind) word.token := reads_of_eq_ok h

end Selects

/-! ## The rules without a list -/

/-! ### Placements -/

section Placement

variable {first : Token} {node : Leaf Placement}

theorem placement_at_behind (hbehind : first.kind = .behind) :
    placement (first :: tokens) = .ok (node, rest) ↔ tokens = rest ∧ node = ⟨first, .behind⟩ := by
  rw [placement, peek_bind, if_pos hbehind, bind_of_ok (token_of_kind hbehind), pure_eq_ok,
    eq_comm, and_comm]

theorem placement_at_within (hbehind : first.kind ≠ .behind) :
    placement (first :: tokens) = .ok (node, rest) ↔
      first.kind = .within ∧ ∃ front of, tokens = front :: of :: rest ∧ front.kind = .front ∧
        of.kind = .of ∧ node = ⟨first, .front⟩ := by
  rw [placement, peek_bind, if_neg hbehind]
  simp only [token_bind_eq_ok, pure_eq_ok]
  constructor
  · rintro ⟨within, others, hsplit, hwithin, front, _, rfl, hfront, of, others, rfl, hof, rfl, rfl⟩
    obtain ⟨rfl, rfl⟩ := List.cons.inj hsplit
    exact ⟨hwithin, front, of, rfl, hfront, hof, rfl⟩
  · rintro ⟨hwithin, front, of, rfl, hfront, hof, rfl⟩
    exact ⟨first, _, rfl, hwithin, front, _, rfl, hfront, of, rest, rfl, hof, rfl, rfl⟩

theorem spelled_of_placement (h : placement tokens = .ok (node, rest)) :
    ∃ used, tokens = used ++ rest ∧ Placement.SpelledBy node used := by
  cases tokens with
  | nil => cases h
  | cons first others =>
    by_cases hbehind : first.kind = .behind
    · obtain ⟨rfl, rfl⟩ := (placement_at_behind hbehind).1 h
      exact ⟨[first], rfl, .behind hbehind⟩
    · obtain ⟨hwithin, front, of, rfl, hfront, hof, rfl⟩ := (placement_at_within hbehind).1 h
      exact ⟨[first, front, of], rfl, .front hwithin hfront hof⟩

theorem placement_of_spelled {used : List Token} (h : Placement.SpelledBy node used)
    (rest : List Token) : placement (used ++ rest) = .ok (node, rest) := by
  cases h with
  | @front within front of hwithin hfront hof =>
    exact (placement_at_within (by simp [hwithin])).2
      ⟨hwithin, front, of, rfl, hfront, hof, rfl⟩
  | behind hbehind => exact (placement_at_behind hbehind).2 ⟨rfl, rfl⟩

theorem reads_placement : Reads placement Placement.SpelledBy :=
  .intro spelled_of_placement placement_of_spelled

end Placement

/-! ### Objects -/

section Object

variable {first : Token} {node : Object}

theorem object_at_name (hname : first.kind = .name) :
    object (first :: tokens) = .ok (node, rest) ↔ tokens = rest ∧ node = .shape first first := by
  rw [object, peek_bind, if_pos hname, bind_of_ok (token_of_kind hname), pure_eq_ok, eq_comm,
    and_comm]

theorem object_at_canvas (hname : first.kind ≠ .name) :
    object (first :: tokens) = .ok (node, rest) ↔
      first.kind = .canvas ∧ tokens = rest ∧ node = .canvas first := by
  rw [object, peek_bind, if_neg hname, token_bind_eq_ok]
  simp only [pure_eq_ok]
  constructor
  · rintro ⟨canvas, others, hsplit, hcanvas, rfl, rfl⟩
    obtain ⟨rfl, rfl⟩ := List.cons.inj hsplit
    exact ⟨hcanvas, rfl, rfl⟩
  · rintro ⟨hcanvas, rfl, rfl⟩
    exact ⟨first, tokens, rfl, hcanvas, rfl, rfl⟩

theorem spelled_of_object (h : object tokens = .ok (node, rest)) :
    ∃ used, tokens = used ++ rest ∧ node.SpelledBy used := by
  cases tokens with
  | nil => cases h
  | cons first others =>
    by_cases hname : first.kind = .name
    · obtain ⟨rfl, rfl⟩ := (object_at_name hname).1 h
      exact ⟨[first], rfl, .shape hname⟩
    · obtain ⟨hcanvas, rfl, rfl⟩ := (object_at_canvas hname).1 h
      exact ⟨[first], rfl, .canvas hcanvas⟩

theorem object_of_spelled {used : List Token} (h : node.SpelledBy used) (rest : List Token) :
    object (used ++ rest) = .ok (node, rest) := by
  cases h with
  | shape hname => exact (object_at_name hname).2 ⟨rfl, rfl⟩
  | canvas hcanvas => exact (object_at_canvas (by simp [hcanvas])).2 ⟨hcanvas, rfl, rfl⟩

theorem reads_object : Reads object Object.SpelledBy := .intro spelled_of_object object_of_spelled

/-- An object is neither `its` nor an area, so the next token tells what a target is about. -/
theorem head_of_object {used : List Token} (h : node.SpelledBy used) :
    ∃ others, used = node.token :: others ∧ node.token.kind ≠ .its ∧
      ∀ area, node.token.kind ≠ .area area := by
  cases h with
  | shape hname => exact ⟨[], rfl, by simp [Object.token, hname], by simp [Object.token, hname]⟩
  | canvas hcanvas =>
    exact ⟨[], rfl, by simp [Object.token, hcanvas], by simp [Object.token, hcanvas]⟩

end Object

/-! ### Targets -/

section Target

variable {its word of part next : Token} {attr : Attribute} {node : Target}

theorem target_at_its (hits : its.kind = .its) :
    target (its :: tokens) = .ok (node, rest) ↔
      ∃ word : Leaf Attribute, tokens = word.token :: rest ∧ word.token.kind = .attr word.kind ∧
        node = .implicit its word := by
  rw [target, peek_bind, if_pos hits, bind_of_ok (token_of_kind hits), selects_attr.bind_eq_ok]
  simp only [pure_eq_ok]
  constructor
  · rintro ⟨word, others, rfl, hattr, rfl, rfl⟩
    exact ⟨word, rfl, hattr, rfl⟩
  · rintro ⟨word, rfl, hattr, rfl⟩
    exact ⟨word, rest, rfl, hattr, rfl, rfl⟩

theorem target_at_attr_its (hattr : word.kind = .attr attr) (hof : of.kind = .of)
    (hits : its.kind = .its) :
    target (word :: of :: its :: tokens) = .ok (node, rest) ↔
      ∃ part : Leaf Area, tokens = part.token :: rest ∧ part.token.kind = .area part.kind ∧
        node = .implicitArea word ⟨word, attr⟩ part := by
  rw [target, peek_bind, if_neg (by simp [hattr]), bind_of_ok (selects_attr.take hattr),
    bind_of_ok (token_of_kind hof), peek_bind, hits]
  dsimp only
  rw [bind_of_ok (token_of_kind hits), selects_area.bind_eq_ok]
  simp only [pure_eq_ok]
  constructor
  · rintro ⟨part, others, rfl, harea, rfl, rfl⟩
    exact ⟨part, rfl, harea, rfl⟩
  · rintro ⟨part, rfl, harea, rfl⟩
    exact ⟨part, rest, rfl, harea, rfl, rfl⟩

theorem target_at_attr_area {area : Area} (hattr : word.kind = .attr attr) (hof : of.kind = .of)
    (harea : part.kind = .area area) :
    target (word :: of :: part :: tokens) = .ok (node, rest) ↔
      ∃ of' others object, tokens = of' :: others ∧ of'.kind = .of ∧
        Parser.object others = .ok (object, rest) ∧
        node = .area word ⟨word, attr⟩ ⟨part, area⟩ object := by
  rw [target, peek_bind, if_neg (by simp [hattr]), bind_of_ok (selects_attr.take hattr),
    bind_of_ok (token_of_kind hof), peek_bind, harea]
  dsimp only
  rw [bind_of_ok (selects_area.take harea), token_bind_eq_ok]
  simp only [bind_eq_ok, pure_eq_ok]
  constructor
  · rintro ⟨of', others, rfl, hof', object, last, hobject, rfl, rfl⟩
    exact ⟨of', others, object, rfl, hof', hobject, rfl⟩
  · rintro ⟨of', others, object, rfl, hof', hobject, rfl⟩
    exact ⟨of', others, rfl, hof', object, rest, hobject, rfl, rfl⟩

theorem target_at_attr_object (hattr : word.kind = .attr attr) (hof : of.kind = .of)
    (hits : next.kind ≠ .its) (harea : ∀ area, next.kind ≠ .area area) :
    target (word :: of :: next :: tokens) = .ok (node, rest) ↔
      ∃ object, Parser.object (next :: tokens) = .ok (object, rest) ∧
        node = .plain word ⟨word, attr⟩ object := by
  rw [target, peek_bind, if_neg (by simp [hattr]), bind_of_ok (selects_attr.take hattr),
    bind_of_ok (token_of_kind hof), peek_bind]
  -- Only the last alternative is left for the next token.
  simp only [bind_eq_ok, pure_eq_ok]
  constructor
  · rintro ⟨object, last, hobject, rfl, rfl⟩
    exact ⟨object, hobject, rfl⟩
  · rintro ⟨object, hobject, rfl⟩
    exact ⟨object, rest, hobject, rfl, rfl⟩

/-- A target that does not start with `its` has an attribute, `of` and something more in front. -/
theorem exists_of_target (hits : word.kind ≠ .its)
    (h : target (word :: tokens) = .ok (node, rest)) :
    ∃ attr of next others, tokens = of :: next :: others ∧ word.kind = .attr attr ∧
      of.kind = .of := by
  rw [target, peek_bind, if_neg hits, selects_attr.bind_eq_ok] at h
  obtain ⟨attr, others, hsplit, hattr, h⟩ := h
  obtain ⟨rfl, rfl⟩ := List.cons.inj hsplit
  obtain ⟨of, others, rfl, hof, h⟩ := token_bind_eq_ok.1 h
  obtain ⟨next, others, rfl, -⟩ := peek_bind_eq_ok.1 h
  exact ⟨attr.kind, of, next, others, rfl, hattr, hof⟩

theorem spelled_of_target (h : target tokens = .ok (node, rest)) :
    ∃ used, tokens = used ++ rest ∧ node.SpelledBy used := by
  cases tokens with
  | nil => cases h
  | cons first others =>
    by_cases hits : first.kind = .its
    · obtain ⟨word, rfl, hattr, rfl⟩ := (target_at_its hits).1 h
      exact ⟨[first, word.token], rfl, .implicit hits hattr⟩
    · obtain ⟨attr, of, next, others, rfl, hattr, hof⟩ := exists_of_target hits h
      cases hnext : next.kind with
      | its =>
        obtain ⟨part, rfl, harea, rfl⟩ := (target_at_attr_its hattr hof hnext).1 h
        exact ⟨[first, of, next, part.token], rfl, .implicitArea hattr hof hnext harea⟩
      | area area =>
        obtain ⟨of', others, object, rfl, hof', hobject, rfl⟩ :=
          (target_at_attr_area hattr hof hnext).1 h
        obtain ⟨used, rfl, hused⟩ := (reads_object _ _ _).1 hobject
        exact ⟨first :: of :: next :: of' :: used, rfl, .area hattr hof hnext hof' hused⟩
      | _ =>
        obtain ⟨object, hobject, rfl⟩ :=
          (target_at_attr_object hattr hof (by simp [hnext]) (by simp [hnext])).1 h
        obtain ⟨used, hsplit, hused⟩ := (reads_object _ _ _).1 hobject
        exact ⟨first :: of :: used, by rw [hsplit]; rfl, .plain hattr hof hused⟩

theorem target_of_spelled {used : List Token} (h : node.SpelledBy used) (rest : List Token) :
    target (used ++ rest) = .ok (node, rest) := by
  cases h with
  | @implicit its word attr hits hattr =>
    exact (target_at_its hits).2 ⟨⟨word, attr⟩, rfl, hattr, rfl⟩
  | @implicitArea word of its part attr area hattr hof hits harea =>
    exact (target_at_attr_its hattr hof hits).2 ⟨⟨part, area⟩, rfl, harea, rfl⟩
  | @area word of part of' attr area object tokens hattr hof harea hof' hobject =>
    have hread := reads_object.read hobject rest
    exact (target_at_attr_area hattr hof harea).2 ⟨of', _, object, rfl, hof', hread, rfl⟩
  | @plain word of attr object tokens hattr hof hobject =>
    have hread := reads_object.read hobject rest
    obtain ⟨others, rfl, hits, harea⟩ := head_of_object hobject
    exact (target_at_attr_object hattr hof hits harea).2 ⟨object, hread, rfl⟩

theorem reads_target : Reads target Target.SpelledBy := .intro spelled_of_target target_of_spelled

end Target

/-! ## Lists -/

theorem separated_eq_ok {separator : Token.Kind} {item : Parser α} {keeps : Keeps item}
    {spelled : α → List Token → Prop} (hitem : Reads item spelled) {items : List α} :
    separated separator item keeps tokens = .ok (items, rest) ↔
      ∃ used, tokens = used ++ rest ∧ Separated separator spelled items used ∧
        ∀ next ∈ rest.head?, next.kind ≠ separator := by
  constructor
  · intro h
    fun_induction separated separator item keeps tokens generalizing items rest with
    | case1 tokens left hleft => cases h
    | case2 tokens first hfirst =>
      cases h
      obtain ⟨used, rfl, hused⟩ := (hitem _ _ _).1 hfirst
      exact ⟨used, rfl, .one hused, by simp⟩
    | case3 tokens first next middle hfirst hnext left hmore ih => cases h
    | case4 tokens first next middle hfirst hnext others last hmore ih =>
      cases h
      obtain ⟨used, rfl, hused⟩ := (hitem _ _ _).1 hfirst
      obtain ⟨used', rfl, hused', hlast⟩ := ih hmore
      exact ⟨used ++ next :: used', by simp, .more hused hnext hused', hlast⟩
    | case5 tokens first next middle hfirst hnext =>
      cases h
      obtain ⟨used, rfl, hused⟩ := (hitem _ _ _).1 hfirst
      exact ⟨used, rfl, .one hused, by simpa using hnext⟩
  · rintro ⟨used, rfl, hused, hlast⟩
    induction hused with
    | one hnode =>
      have hfirst := hitem.read hnode rest
      cases rest with
      | nil => exact separated_of_end hfirst
      | cons next others => exact separated_of_other hfirst (hlast next rfl)
    | more hnode hbetween _ ih =>
      rw [List.append_assoc, List.cons_append,
        separated_of_separator (hitem.read hnode _) hbetween, ih]
      rfl

theorem repeated_eq_ok {close : Token.Kind} {item : Parser α} {consumes : Consumes item}
    {spelled : α → List Token → Prop} (hitem : Reads item spelled)
    (hstart : ∀ node used, spelled node used → ∃ first others, used = first :: others ∧
      first.kind ≠ close) {items : List α} :
    repeated close item consumes tokens = .ok (items, rest) ↔
      ∃ used, tokens = used ++ rest ∧ Repeated spelled items used ∧
        ∃ next ∈ rest.head?, next.kind = close := by
  constructor
  · intro h
    fun_induction repeated close item consumes tokens generalizing items rest with
    | case1 tokens left hleft => cases h
    | case2 tokens first hfirst => cases h
    | case3 tokens first next middle hfirst hnext =>
      cases h
      obtain ⟨used, rfl, hused⟩ := (hitem _ _ _).1 hfirst
      exact ⟨used, rfl, .one hused, next, rfl, hnext⟩
    | case4 tokens first next middle hfirst hnext left hmore ih => cases h
    | case5 tokens first next middle hfirst hnext others last hmore ih =>
      cases h
      obtain ⟨used, rfl, hused⟩ := (hitem _ _ _).1 hfirst
      obtain ⟨used', hsplit, hused', hlast⟩ := ih hmore
      exact ⟨used ++ used', by rw [hsplit, List.append_assoc], .more hused hused', hlast⟩
  · rintro ⟨used, rfl, hused, next, hnext, hclose⟩
    obtain ⟨others, rfl⟩ := List.head?_eq_some_iff.1 hnext
    induction hused with
    | one hnode => exact repeated_of_close (hitem.read hnode _) hclose
    | more hnode hmore ih =>
      obtain ⟨first, used, rfl, hfirst⟩ := hmore.head hstart
      rw [List.append_assoc, List.cons_append, repeated_of_more (hitem.read hnode _) hfirst,
        ← List.cons_append, ih]
      rfl

/-! ## The rules with a list -/

/-! ### Literals -/

section Literal

variable {first : Token} {node : Literal}

theorem literal_at_number (hnumber : first.kind = .number) :
    literal (first :: tokens) = .ok (node, rest) ↔
      tokens = rest ∧ node = .number first first := by
  rw [literal, peek_bind, hnumber]
  dsimp only
  rw [bind_of_ok (token_of_kind hnumber), pure_eq_ok, eq_comm, and_comm]

theorem literal_at_leftParen (hleft : first.kind = .leftParen) :
    literal (first :: tokens) = .ok (node, rest) ↔
      ∃ used numbers right, tokens = used ++ right :: rest ∧
        Separated .comma (Token.SpelledBy .number) numbers used ∧ right.kind = .rightParen ∧
        node = .tuple first numbers := by
  rw [literal, peek_bind, hleft]
  dsimp only
  rw [bind_of_ok (token_of_kind hleft), bind_eq_ok]
  simp only [token_bind_eq_ok, pure_eq_ok, separated_eq_ok (reads_token .number)]
  constructor
  · rintro ⟨numbers, _, ⟨used, rfl, hused, -⟩, right, others, rfl, hright, rfl, rfl⟩
    exact ⟨used, numbers, right, rfl, hused, hright, rfl⟩
  · rintro ⟨used, numbers, right, rfl, hused, hright, rfl⟩
    exact ⟨numbers, _, ⟨used, rfl, hused, by simp [hright]⟩, right, rest, rfl, hright, rfl, rfl⟩

theorem literal_at_color (hnumber : first.kind ≠ .number) (hleft : first.kind ≠ .leftParen) :
    literal (first :: tokens) = .ok (node, rest) ↔
      ∃ color, tokens = rest ∧ first.kind = .color color ∧ node = .color first ⟨first, color⟩ := by
  rw [literal, peek_bind]
  -- Only the last alternative is left for the first token.
  simp only [selects_color.bind_eq_ok, pure_eq_ok]
  constructor
  · rintro ⟨word, others, hsplit, hcolor, rfl, rfl⟩
    obtain ⟨rfl, rfl⟩ := List.cons.inj hsplit
    exact ⟨word.kind, rfl, hcolor, rfl⟩
  · rintro ⟨color, rfl, hcolor, rfl⟩
    exact ⟨⟨first, color⟩, tokens, rfl, hcolor, rfl, rfl⟩

theorem spelled_of_literal (h : literal tokens = .ok (node, rest)) :
    ∃ used, tokens = used ++ rest ∧ node.SpelledBy used := by
  cases tokens with
  | nil => cases h
  | cons first others =>
    cases hfirst : first.kind with
    | number =>
      obtain ⟨rfl, rfl⟩ := (literal_at_number hfirst).1 h
      exact ⟨[first], rfl, .number hfirst⟩
    | leftParen =>
      obtain ⟨used, numbers, right, rfl, hused, hright, rfl⟩ := (literal_at_leftParen hfirst).1 h
      exact ⟨first :: used ++ [right], by simp, .tuple hfirst hused hright⟩
    | _ =>
      obtain ⟨color, rfl, hcolor, rfl⟩ :=
        (literal_at_color (by simp [hfirst]) (by simp [hfirst])).1 h
      exact ⟨[first], rfl, .color hcolor⟩

theorem literal_of_spelled {used : List Token} (h : node.SpelledBy used) (rest : List Token) :
    literal (used ++ rest) = .ok (node, rest) := by
  cases h with
  | number hnumber => exact (literal_at_number hnumber).2 ⟨rfl, rfl⟩
  | @tuple left right numbers tokens hleft hnumbers hright =>
    exact (literal_at_leftParen hleft).2 ⟨tokens, numbers, right, by simp, hnumbers, hright, rfl⟩
  | @color word color hcolor =>
    exact (literal_at_color (by simp [hcolor]) (by simp [hcolor])).2 ⟨color, rfl, hcolor, rfl⟩

theorem reads_literal : Reads literal Literal.SpelledBy :=
  .intro spelled_of_literal literal_of_spelled

end Literal

/-! ### Clauses -/

section Clause

variable {name is first next : Token} {node : Clause}

theorem predicate_at_placement (hnext : next.kind.startsPlacement = true) :
    predicate name (next :: tokens) = .ok (node, rest) ↔
      ∃ placement second, Parser.placement (next :: tokens) = .ok (placement, second :: rest) ∧
        second.kind = .name ∧ node = .place name name placement second := by
  rw [predicate, peek_bind, if_pos hnext, bind_eq_ok]
  simp only [token_bind_eq_ok, pure_eq_ok]
  constructor
  · rintro ⟨placement, _, hplacement, second, others, rfl, hsecond, rfl, rfl⟩
    exact ⟨placement, second, hplacement, hsecond, rfl⟩
  · rintro ⟨placement, second, hplacement, hsecond, rfl⟩
    exact ⟨placement, _, hplacement, second, rest, rfl, hsecond, rfl, rfl⟩

theorem predicate_at_shape (hnext : next.kind.startsPlacement = false) :
    predicate name (next :: tokens) = .ok (node, rest) ↔
      ∃ kind, tokens = rest ∧ next.kind = .shape kind ∧
        node = .declare name name ⟨next, kind⟩ := by
  rw [predicate, peek_bind, if_neg (Bool.not_eq_true _ ▸ hnext), selects_shape.bind_eq_ok]
  simp only [pure_eq_ok]
  constructor
  · rintro ⟨word, others, hsplit, hshape, rfl, rfl⟩
    obtain ⟨rfl, rfl⟩ := List.cons.inj hsplit
    exact ⟨word.kind, rfl, hshape, rfl⟩
  · rintro ⟨kind, rfl, hshape, rfl⟩
    exact ⟨⟨next, kind⟩, tokens, rfl, hshape, rfl, rfl⟩

theorem clause_at_name (hname : name.kind = .name) :
    clause (name :: tokens) = .ok (node, rest) ↔
      ∃ is others, tokens = is :: others ∧ is.kind = .is ∧
        predicate name others = .ok (node, rest) := by
  rw [clause, peek_bind, if_pos hname, bind_of_ok (token_of_kind hname), token_bind_eq_ok]

theorem clause_at_target (hfirst : first.kind ≠ .name) :
    clause (first :: tokens) = .ok (node, rest) ↔
      ∃ target is others value, Parser.target (first :: tokens) = .ok (target, is :: others) ∧
        is.kind = .is ∧ literal others = .ok (value, rest) ∧
        node = .assign first target value := by
  rw [clause, peek_bind, if_neg hfirst, bind_eq_ok]
  simp only [token_bind_eq_ok]
  simp only [bind_eq_ok, pure_eq_ok]
  constructor
  · rintro ⟨target, _, htarget, is, others, rfl, his, value, last, hvalue, rfl, rfl⟩
    exact ⟨target, is, others, value, htarget, his, hvalue, rfl⟩
  · rintro ⟨target, is, others, value, htarget, his, hvalue, rfl⟩
    exact ⟨target, _, htarget, is, others, rfl, his, value, rest, hvalue, rfl, rfl⟩

/-- What is read behind a name and `is` spells a clause together with them. -/
theorem spelled_of_predicate (hname : name.kind = .name) (his : is.kind = .is)
    (h : predicate name tokens = .ok (node, rest)) :
    ∃ used, tokens = used ++ rest ∧ node.SpelledBy (name :: is :: used) := by
  cases tokens with
  | nil => cases h
  | cons next others =>
    cases hnext : next.kind.startsPlacement with
    | true =>
      obtain ⟨placement, second, hplacement, hsecond, rfl⟩ := (predicate_at_placement hnext).1 h
      obtain ⟨used, hsplit, hused⟩ := (reads_placement _ _ _).1 hplacement
      exact ⟨used ++ [second], by simp [hsplit], .place hname his hused hsecond⟩
    | false =>
      obtain ⟨kind, rfl, hshape, rfl⟩ := (predicate_at_shape hnext).1 h
      exact ⟨[next], rfl, .declare hname his hshape⟩

theorem spelled_of_clause (h : clause tokens = .ok (node, rest)) :
    ∃ used, tokens = used ++ rest ∧ node.SpelledBy used := by
  cases tokens with
  | nil => cases h
  | cons first others =>
    by_cases hname : first.kind = .name
    · obtain ⟨is, others, rfl, his, hpredicate⟩ := (clause_at_name hname).1 h
      obtain ⟨used, rfl, hused⟩ := spelled_of_predicate hname his hpredicate
      exact ⟨first :: is :: used, rfl, hused⟩
    · obtain ⟨target, is, others, value, htarget, his, hvalue, rfl⟩ := (clause_at_target hname).1 h
      obtain ⟨used', rfl, hused'⟩ := (reads_literal _ _ _).1 hvalue
      obtain ⟨used, hsplit, hused⟩ := (reads_target _ _ _).1 htarget
      obtain ⟨others, rfl, -⟩ := hused.head
      obtain ⟨rfl, rfl⟩ := List.cons.inj hsplit
      exact ⟨target.token :: others ++ is :: used', by simp, .assign hused his hused'⟩

theorem clause_of_spelled {used : List Token} (h : node.SpelledBy used) (rest : List Token) :
    clause (used ++ rest) = .ok (node, rest) := by
  cases h with
  | @declare name is word kind hname his hword =>
    have hother : word.kind.startsPlacement = false := by rw [hword]; rfl
    exact (clause_at_name hname).2
      ⟨is, _, rfl, his, (predicate_at_shape hother).2 ⟨kind, rfl, hword, rfl⟩⟩
  | @place name is second placement tokens hname his hplacement hsecond =>
    have hread := reads_placement.read hplacement (second :: rest)
    obtain ⟨others, rfl, hstarts⟩ := hplacement.head
    refine (clause_at_name hname).2 ⟨is, _, rfl, his, ?_⟩
    show predicate name ((placement.token :: others ++ [second]) ++ rest) = _
    rw [List.append_assoc]
    exact (predicate_at_placement hstarts).2 ⟨placement, second, hread, hsecond, rfl⟩
  | @assign first is target value tokens others htarget his hvalue =>
    have htarget' := reads_target.read htarget (is :: (others ++ rest))
    have hvalue' := reads_literal.read hvalue rest
    obtain ⟨others', hsplit, hfirst⟩ := htarget.head
    obtain ⟨rfl, rfl⟩ := List.cons.inj hsplit
    rw [List.append_assoc]
    exact (clause_at_target hfirst).2 ⟨target, is, _, value, htarget', his, hvalue', rfl⟩

theorem reads_clause : Reads clause Clause.SpelledBy := .intro spelled_of_clause clause_of_spelled

end Clause

/-! ### Sentences and programs -/

theorem reads_sentence : Reads sentence Sentence.SpelledBy := by
  intro tokens node rest
  constructor
  · intro h
    rw [sentence, peek_bind_eq_ok] at h
    obtain ⟨first, others, rfl, h⟩ := h
    rw [bind_eq_ok] at h
    obtain ⟨clauses, others, hclauses, h⟩ := h
    rw [token_bind_eq_ok] at h
    obtain ⟨period, others, rfl, hperiod, h⟩ := h
    rw [pure_eq_ok] at h
    obtain ⟨rfl, rfl⟩ := h
    obtain ⟨used, hsplit, hused, -⟩ := (separated_eq_ok reads_clause).1 hclauses
    obtain ⟨first', others', rfl⟩ := exists_cons_of_clauses hused
    obtain ⟨rfl, rfl⟩ := List.cons.inj hsplit
    exact ⟨first :: others' ++ [period], by simp, .intro hused hperiod⟩
  · rintro ⟨used, rfl, hused⟩
    cases hused with
    | @intro first period clauses tokens hclauses hperiod =>
      have hlist : separated .and clause consumes_clause.keeps (first :: tokens ++ period :: rest) =
          .ok (clauses, period :: rest) :=
        (separated_eq_ok reads_clause).2 ⟨_, rfl, hclauses, by simp [hperiod]⟩
      simp only [List.cons_append, List.append_assoc, List.nil_append]
      exact peek_bind_eq_ok.2 ⟨first, _, rfl, bind_eq_ok.2 ⟨clauses, _, hlist,
        token_bind_eq_ok.2 ⟨period, _, rfl, hperiod, rfl⟩⟩⟩

/-- A program ends at an end marker. -/
theorem program_eq_ok {node : Program} : program tokens = .ok (node, rest) ↔
    ∃ used marker, tokens = used ++ marker :: rest ∧ marker.kind = .endOfInput ∧
      node.SpelledBy used := by
  constructor
  · intro h
    rw [program, peek_bind_eq_ok] at h
    obtain ⟨first, others, rfl, h⟩ := h
    rw [bind_eq_ok] at h
    obtain ⟨sentences, others, hsentences, h⟩ := h
    rw [token_bind_eq_ok] at h
    obtain ⟨marker, others, rfl, hmarker, h⟩ := h
    rw [pure_eq_ok] at h
    obtain ⟨rfl, rfl⟩ := h
    obtain ⟨used, hsplit, hused, -⟩ :=
      (repeated_eq_ok reads_sentence fun _ _ h => h.start).1 hsentences
    obtain ⟨first', others', rfl, -⟩ := hused.head fun _ _ h => h.start
    obtain ⟨rfl, rfl⟩ := List.cons.inj hsplit
    exact ⟨first :: others', marker, rfl, hmarker, .intro hused⟩
  · rintro ⟨used, marker, rfl, hmarker, hused⟩
    cases hused with
    | @intro first sentences used hsentences =>
      have hlist : repeated .endOfInput sentence consumes_sentence
          (first :: used ++ marker :: rest) = .ok (sentences, marker :: rest) :=
        (repeated_eq_ok reads_sentence fun _ _ h => h.start).2
          ⟨_, rfl, hsentences, marker, rfl, hmarker⟩
      exact peek_bind_eq_ok.2 ⟨first, _, rfl, bind_eq_ok.2 ⟨sentences, _, hlist,
        token_bind_eq_ok.2 ⟨marker, _, rfl, hmarker, rfl⟩⟩⟩

end Parser

namespace Program

/-- The tokens before the first end marker. -/
def body (tokens : List Token) : List Token := tokens.takeWhile (·.kind ≠ .endOfInput)

theorem unmarked_body (tokens : List Token) : Unmarked (body tokens) := by
  intro token htoken
  have hall : (body tokens).all (·.kind ≠ .endOfInput) = true := List.all_takeWhile
  exact of_decide_eq_true (List.all_eq_true.1 hall token htoken)

theorem body_of_unmarked {tokens : List Token} (h : Unmarked tokens) : body tokens = tokens := by
  have htake : (tokens ++ []).takeWhile (·.kind ≠ Token.Kind.endOfInput) = tokens ++ [] :=
    List.takeWhile_append_of_pos fun token htoken => decide_eq_true (h token htoken)
  rwa [List.append_nil] at htake

theorem takeWhile_of_unmarked {used rest : List Token} {marker : Token} (hused : Unmarked used)
    (hmarker : marker.kind = .endOfInput) :
    (used ++ marker :: rest).takeWhile (·.kind ≠ .endOfInput) = used := by
  rw [List.takeWhile_append_of_pos fun token htoken => decide_eq_true (hused token htoken),
    List.takeWhile_cons_of_neg (by simp [hmarker]), List.append_nil]

/-- With a marker behind it, a token list is its body, a marker and the rest. -/
theorem exists_marker (tokens : List Token) (last : Token) (hlast : last.kind = .endOfInput) :
    ∃ marker rest, tokens ++ [last] = body tokens ++ marker :: rest ∧
      marker.kind = .endOfInput := by
  unfold body
  induction tokens with
  | nil => exact ⟨last, [], rfl, hlast⟩
  | cons token tokens ih =>
    by_cases htoken : token.kind = .endOfInput
    · refine ⟨token, tokens ++ [last], ?_, htoken⟩
      rw [List.takeWhile_cons_of_neg (by simp [htoken])]
      rfl
    · obtain ⟨marker, rest, hsplit, hmarker⟩ := ih
      refine ⟨marker, rest, ?_, hmarker⟩
      rw [List.takeWhile_cons_of_pos (by simp [htoken]), List.cons_append, hsplit]
      rfl

/-- A token list has the tree that its body spells. -/
theorem parse_eq_ok {tokens : List Token} {program : Program} :
    parse tokens = .ok program ↔ program.SpelledBy (body tokens) := by
  obtain ⟨marker, rest, hsplit, hmarker⟩ :=
    exists_marker tokens (endMarker tokens) rfl
  simp only [parse]
  constructor
  · intro h
    split at h
    · next found rest hread =>
      cases h
      obtain ⟨used, marker, hused, hkind, hspelled⟩ := Parser.program_eq_ok.1 hread
      have hbody : used = body tokens := by
        rw [← takeWhile_of_unmarked hspelled.unmarked hkind, ← hused, hsplit,
          takeWhile_of_unmarked (unmarked_body tokens) hmarker]
      rwa [← hbody]
    · cases h
  · intro h
    have hread := Parser.program_eq_ok.2 ⟨body tokens, marker, hsplit, hmarker, h⟩
    simp only [hread]

end Program

end Tableau
