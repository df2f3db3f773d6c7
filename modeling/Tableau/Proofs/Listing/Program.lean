import Tableau.Proofs.Listing.Outline
import Tableau.Proofs.Source.Canonical

/-!
# What the outline of a program shows

The outline of a program has a node for every phrase of it, and the label of the node tells which
form of the phrase it is. So the outline shows the same of a program as its canonical text does: the
words of the vocabulary and the texts of names and numbers, but none of the other tokens
(`Program.outline_eq_iff`). The two are written in different ways. Where a list ends is seen in the
outline by the indentation and in the text by the words; still they tell the same programs apart
(`Program.printers_agree`).
-/

namespace Tableau

/-! ## Words -/

/-- Of a word of the vocabulary only the kind is seen. -/
theorem Leaf.through_textOnly_inj {α : Type} {kindOf : α → Token.Kind} {word word' : Leaf α}
    (hunseen : ∀ kind token, View.textOnly (kindOf kind) token = default) :
    word.through .textOnly kindOf = word'.through .textOnly kindOf ↔ word.kind = word'.kind := by
  simp only [Leaf.through, hunseen, Leaf.mk.injEq, true_and]

theorem Token.nameOutline_inj {name name' : Token} :
    name.nameOutline = name'.nameOutline ↔
      View.textOnly .name name = View.textOnly .name name' := by
  simp [nameOutline, Outline.tip, View.textOnly]

theorem Token.numberOutline_inj {number number' : Token} :
    number.numberOutline = number'.numberOutline ↔
      View.textOnly .number number = View.textOnly .number number' := by
  simp [numberOutline, Outline.tip, View.textOnly]

theorem Token.nameOutline_ne_canvas {name : Token} : name.nameOutline ≠ .tip "Canvas" := by
  intro h
  have hlabel := congrArg String.toList (Outline.node.inj h).1
  rw [String.toList_append, String.toList_append] at hlabel
  cases hlabel

/-! ## Phrases -/

theorem map_eq_map_iff {α β γ : Type} {f : α → β} {g : α → γ}
    (h : ∀ item item', f item = f item' ↔ g item = g item') {items items' : List α} :
    items.map f = items'.map f ↔ items.map g = items'.map g := by
  induction items generalizing items' with
  | nil => simp only [List.map_nil, List.nil_eq, List.map_eq_nil_iff]
  | cons item items ih =>
    cases items' with
    | nil => simp only [List.map_cons, List.map_nil, reduceCtorEq]
    | cons item' items' => simp only [List.map_cons, List.cons.injEq, h, ih]

theorem Object.outline_inj {object object' : Object} :
    object.outline = object'.outline ↔
      object.through .textOnly = object'.through .textOnly := by
  cases object <;> cases object' <;>
    simp only [outline, through, Outline.node.injEq, List.cons.injEq, true_and, and_true,
      reduceCtorEq, Token.nameOutline_inj, Token.nameOutline_ne_canvas,
      Token.nameOutline_ne_canvas.symm, shape.injEq]

theorem Literal.outline_inj {literal literal' : Literal} :
    literal.outline = literal'.outline ↔
      literal.through .textOnly = literal'.through .textOnly := by
  -- The forms share the label `Value` and differ in the first character of the label below it.
  cases literal with
  | number _ digits =>
    cases literal' with
    | number _ digits' =>
      simp only [outline, through, Outline.node.injEq, List.cons.injEq, true_and, and_true,
        Token.numberOutline_inj, number.injEq]
    | tuple | color =>
      simp [outline, through, Token.numberOutline, Outline.tip, ← String.toList_inj]
  | tuple _ numbers =>
    cases literal' with
    | tuple _ numbers' =>
      simp only [outline, through, Outline.node.injEq, List.cons.injEq, true_and, and_true,
        tuple.injEq]
      exact map_eq_map_iff fun _ _ => Token.numberOutline_inj
    | number | color =>
      simp [outline, through, Token.numberOutline, Outline.tip, ← String.toList_inj]
  | color _ word =>
    cases literal' with
    | color _ word' =>
      rw [through, through, color.injEq, Leaf.through_textOnly_inj fun _ _ => rfl]
      simp [outline, Outline.tip, Color.label_injective.eq_iff]
    | number | tuple =>
      simp [outline, through, Token.numberOutline, Outline.tip, ← String.toList_inj]

theorem Target.outline_inj {target target' : Target} :
    target.outline = target'.outline ↔
      target.through .textOnly = target'.through .textOnly := by
  have hattr : ∀ {attr attr' : Leaf Attribute},
      attr.through .textOnly .attr = attr'.through .textOnly .attr ↔ attr.kind = attr'.kind :=
    Leaf.through_textOnly_inj fun _ _ => rfl
  have harea : ∀ {part part' : Leaf Area},
      part.through .textOnly .area = part'.through .textOnly .area ↔ part.kind = part'.kind :=
    Leaf.through_textOnly_inj fun _ _ => rfl
  -- Each form has a label of its own.
  cases target <;> cases target' <;>
    simp only [outline, through, Outline.tip, Outline.node.injEq, List.cons.injEq, true_and,
      and_true, false_and, reduceCtorEq, String.reduceEq, String.append_right_inj,
      Attribute.label_injective.eq_iff, Object.outline_inj, hattr, harea, plain.injEq, area.injEq,
      implicit.injEq, implicitArea.injEq]

theorem Clause.outline_inj {clause clause' : Clause} :
    clause.outline = clause'.outline ↔
      clause.through .textOnly = clause'.through .textOnly := by
  have hshape : ∀ {word word' : Leaf Shape.Kind},
      word.through .textOnly .shape = word'.through .textOnly .shape ↔ word.kind = word'.kind :=
    Leaf.through_textOnly_inj fun _ _ => rfl
  have hplacement : ∀ {word word' : Leaf Placement},
      word.through .textOnly Placement.kind = word'.through .textOnly Placement.kind ↔
        word.kind = word'.kind :=
    Leaf.through_textOnly_inj fun placement _ => by cases placement <;> rfl
  -- Each form has a label of its own.
  cases clause <;> cases clause' <;>
    simp only [outline, through, Outline.tip, Outline.node.injEq, List.cons.injEq, true_and,
      and_true, false_and, reduceCtorEq, String.reduceEq, String.append_right_inj,
      Shape.Kind.label_injective.eq_iff, Placement.label_injective.eq_iff, Token.nameOutline_inj,
      Target.outline_inj, Literal.outline_inj, hshape, hplacement, declare.injEq, place.injEq,
      assign.injEq]

theorem Sentence.outline_inj {sentence sentence' : Sentence} :
    sentence.outline = sentence'.outline ↔
      sentence.through .textOnly = sentence'.through .textOnly := by
  simp only [outline, through, Outline.node.injEq, Sentence.mk.injEq, true_and]
  exact map_eq_map_iff fun _ _ => Clause.outline_inj

/-- The outline shows of a program what is left of it without its tokens, but for the texts of names
and numbers. -/
theorem Program.outline_eq_iff {program other : Program} :
    program.outline = other.outline ↔ program.bare = other.bare := by
  simp only [outline, bare, through, Outline.node.injEq, Program.mk.injEq, true_and]
  exact map_eq_map_iff fun _ _ => Sentence.outline_inj

/-! ## Printable programs -/

open Outline

theorem Token.wellLabelled_nameOutline {name : Token} (h : IsName name.text.toList) :
    name.nameOutline.WellLabelled := by
  have hword : IsLabel "Name \"" := by decide
  refine wellLabelled_tip ?_
  rw [String.append_assoc]
  exact hword.append (by decide) (oneLine_append.2 ⟨h.oneLine, by decide⟩)

theorem Token.wellLabelled_numberOutline {number : Token}
    (h : Numeral.isNumeral number.text.toList = true) : number.numberOutline.WellLabelled := by
  have hword : IsLabel "Number " := by decide
  exact wellLabelled_tip (hword.append (by decide) (Numeral.oneLine_of_isNumeral h))

theorem Object.wellLabelled_outline {object : Object}
    (h : ∀ piece ∈ object.yield, piece.Printable) : object.outline.WellLabelled := by
  have hlabel : IsLabel "Object" := by decide
  cases object with
  | shape _ name =>
    have hname := Token.wellLabelled_nameOutline (h (.kept .name name) List.mem_cons_self)
    exact .node hlabel (List.forall_mem_singleton.2 hname)
  | canvas =>
    exact .node hlabel (List.forall_mem_singleton.2 (wellLabelled_tip (by decide)))

theorem Literal.wellLabelled_outline {literal : Literal}
    (h : ∀ piece ∈ literal.yield, piece.Printable) : literal.outline.WellLabelled := by
  have hlabel : IsLabel "Value" := by decide
  cases literal with
  | number _ digits =>
    have hdigits := Token.wellLabelled_numberOutline (h (.kept .number digits) List.mem_cons_self)
    exact .node hlabel (List.forall_mem_singleton.2 hdigits)
  | tuple _ numbers =>
    have htuple : IsLabel "Tuple" := by decide
    refine .node hlabel (List.forall_mem_singleton.2 (.node htuple ?_))
    refine List.forall_mem_map.2 fun number hnumber => ?_
    have hmem : Piece.kept .number number ∈ separatedBy .comma Token.asNumber numbers :=
      mem_separatedBy hnumber (List.mem_singleton_self _)
    exact Token.wellLabelled_numberOutline
      (h (.kept .number number) (List.mem_cons_of_mem _ (List.mem_append_left _ hmem)))
  | color _ word =>
    have hword : IsLabel ("Color " ++ word.kind.label) := by
      cases word.kind <;> decide
    exact .node hlabel (List.forall_mem_singleton.2 (wellLabelled_tip hword))

theorem Target.wellLabelled_outline {target : Target}
    (h : ∀ piece ∈ target.yield, piece.Printable) : target.outline.WellLabelled := by
  have hattr : ∀ attr : Attribute, (tip ("Attribute " ++ attr.label)).WellLabelled := fun attr =>
    wellLabelled_tip (by cases attr <;> decide)
  have harea : ∀ part : Area, (tip ("Area " ++ part.label)).WellLabelled := fun part =>
    wellLabelled_tip (by cases part; decide)
  cases target with
  | plain _ attr object =>
    have hlabel : IsLabel "AttributeTarget" := by decide
    have hobject : object.outline.WellLabelled :=
      Object.wellLabelled_outline fun piece hpiece => h piece (by simp [Target.yield, hpiece])
    refine .node hlabel ?_
    rw [List.forall_mem_cons, List.forall_mem_singleton]
    exact ⟨hattr _, hobject⟩
  | area _ attr part object =>
    have hlabel : IsLabel "AreaAttributeTarget" := by decide
    have hobject : object.outline.WellLabelled :=
      Object.wellLabelled_outline fun piece hpiece => h piece (by simp [Target.yield, hpiece])
    refine .node hlabel ?_
    rw [List.forall_mem_cons, List.forall_mem_cons, List.forall_mem_singleton]
    exact ⟨hattr _, harea _, hobject⟩
  | implicit _ attr =>
    have hlabel : IsLabel "ImplicitAttributeTarget" := by decide
    exact .node hlabel (List.forall_mem_singleton.2 (hattr _))
  | implicitArea _ attr part =>
    have hlabel : IsLabel "ImplicitAreaAttributeTarget" := by decide
    refine .node hlabel ?_
    rw [List.forall_mem_cons, List.forall_mem_singleton]
    exact ⟨hattr _, harea _⟩

theorem Clause.wellLabelled_outline {clause : Clause}
    (h : ∀ piece ∈ clause.yield, piece.Printable) : clause.outline.WellLabelled := by
  cases clause with
  | declare _ name word =>
    have hlabel : IsLabel "ShapeSentence" := by decide
    have hname := Token.wellLabelled_nameOutline (h (.kept .name name) List.mem_cons_self)
    have hword : IsLabel ("Shape " ++ word.kind.label) := by
      cases word.kind <;> decide
    refine .node hlabel ?_
    rw [List.forall_mem_cons, List.forall_mem_singleton]
    exact ⟨hname, wellLabelled_tip hword⟩
  | place _ first placement second =>
    have hlabel : IsLabel "OrderSentence" := by decide
    have hfirst := Token.wellLabelled_nameOutline (h (.kept .name first) List.mem_cons_self)
    have hsecond := Token.wellLabelled_nameOutline
      (h (.kept .name second) (by simp [Clause.yield]))
    have hword : IsLabel ("Order " ++ placement.kind.label) := by
      cases placement.kind <;> decide
    refine .node hlabel ?_
    rw [List.forall_mem_cons, List.forall_mem_cons, List.forall_mem_singleton]
    exact ⟨hfirst, wellLabelled_tip hword, hsecond⟩
  | assign _ target value =>
    have hlabel : IsLabel "ValueSentence" := by decide
    refine .node hlabel ?_
    rw [List.forall_mem_cons, List.forall_mem_singleton]
    exact ⟨Target.wellLabelled_outline fun piece hpiece => h piece (by simp [Clause.yield, hpiece]),
      Literal.wellLabelled_outline fun piece hpiece => h piece (by simp [Clause.yield, hpiece])⟩

namespace Program.Printable

variable {program other : Program}

theorem wellLabelled_outline (h : program.Printable) : program.outline.WellLabelled := by
  have hprogram : IsLabel "Input" := by decide
  have hsentence : IsLabel "Sentence" := by decide
  refine .node hprogram (List.forall_mem_map.2 fun sentence hmem => ?_)
  refine .node hsentence (List.forall_mem_map.2 fun clause hclause => ?_)
  exact Clause.wellLabelled_outline (h.clause_words (List.mem_flatMap.2 ⟨sentence, hmem, hclause⟩))

/-- A printable program can be read off its canonical text, up to its tokens. -/
theorem bare_eq_of_source_eq (h : program.Printable) (h' : other.Printable)
    (hsource : program.source = other.source) : program.bare = other.bare := by
  have htokens := h.tokens_source
  rw [hsource, h'.tokens_source] at htokens
  obtain ⟨tree, hparse, -, hbare⟩ := h.reparsed
  obtain ⟨tree', hparse', -, hbare'⟩ := h'.reparsed
  rw [Except.ok.inj htokens, hparse] at hparse'
  rw [← hbare, ← hbare', Except.ok.inj hparse']

end Program.Printable

/-- **The outline and the canonical text tell the same programs apart**: printable programs have one
outline text exactly if they have one canonical text, and that is so exactly if they are the same up
to the tokens of their nodes, but for the texts of names and numbers. -/
theorem Program.printers_agree {program other : Program} (h : program.Printable)
    (h' : other.Printable) :
    (program.outline.text = other.outline.text ↔ program.source = other.source) ∧
      (program.source = other.source ↔ program.bare = other.bare) := by
  have hsource : program.source = other.source ↔ program.bare = other.bare := by
    refine ⟨h.bare_eq_of_source_eq h', fun hbare => ?_⟩
    rw [← program.source_bare, hbare, other.source_bare]
  have houtline : program.outline.text = other.outline.text ↔ program.bare = other.bare := by
    rw [← Program.outline_eq_iff]
    exact ⟨text_inj h.wellLabelled_outline h'.wellLabelled_outline, congrArg Outline.text⟩
  exact ⟨houtline.trans hsource.symm, hsource⟩

/-- One program in two spellings, and the same clauses in two sentences; and a name that is none,
with a second clause in it that only the canonical text takes for one. -/
theorem Program.printers_agree_of_respelled :
    let program (line : Nat) (square its size : String) : Program :=
      let A : Token := ⟨.name, "A", 1⟩
      let its : Token := ⟨.its, its, line⟩
      let seven : Token := ⟨.number, "7", line⟩
      ⟨A, [⟨A, [.declare A A ⟨⟨.shape .square, square, line⟩, .square⟩,
        .assign its (.implicit its ⟨⟨.attr .size, size, line⟩, .size⟩) (.number seven seven)]⟩]⟩
    let plain := program 1 "square" "its" "size"
    let respelled := program 2 "SQUARE" "Its" "sIzE"
    let split : Program := ⟨plain.token, plain.sentences.flatMap fun sentence =>
      sentence.clauses.map fun clause => ⟨clause.token, [clause]⟩⟩
    let declared (name : String) (kind : Shape.Kind) : Clause :=
      .declare default ⟨.name, name, 0⟩ ⟨default, kind⟩
    let honest : Program := ⟨default, [⟨default, [declared "A" .circle, declared "B" .square]⟩]⟩
    let forged : Program := ⟨default, [⟨default, [declared "A is circle and B" .square]⟩]⟩
    (plain.Printable ∧ respelled.Printable ∧ plain ≠ respelled ∧
      plain.outline.text = respelled.outline.text ∧ plain.bare = respelled.bare) ∧
    (split.Printable ∧ plain.outline.text ≠ split.outline.text ∧ plain.source ≠ split.source) ∧
    honest.source = forged.source ∧ honest.outline.text ≠ forged.outline.text := by
  intro program plain respelled split declared honest forged
  have hplain : Source.program "A is square and its size is 7." = .ok plain :=
    Token.eq_ok_of_toOption (by decide +kernel)
  have hrespelled : Source.program "A\nISSQUARE ANDItssIzEis7." = .ok respelled :=
    Token.eq_ok_of_toOption (by decide +kernel)
  have hsplit : Source.program "A is square. its size is 7." = .ok split :=
    Token.eq_ok_of_toOption (by decide +kernel)
  replace hplain := Source.printable_of_program hplain
  replace hrespelled := Source.printable_of_program hrespelled
  replace hsplit := Source.printable_of_program hsplit
  have hsource : plain.source = respelled.source := by decide +kernel
  have houtline : plain.outline.text ≠ split.outline.text := by decide +kernel
  obtain ⟨hsame, hbare⟩ := Program.printers_agree hplain hrespelled
  obtain ⟨happart, -⟩ := Program.printers_agree hplain hsplit
  exact ⟨⟨hplain, hrespelled, by decide +kernel, hsame.2 hsource, hbare.1 hsource⟩,
    ⟨hsplit, houtline, mt happart.2 houtline⟩, by decide +kernel, by decide +kernel⟩

end Tableau
