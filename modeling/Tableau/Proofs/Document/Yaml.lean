import Tableau.Proofs.Document.YamlReading

/-!
# Reading the YAML of a document

Before a node is read the text is cleaned and cut into the lines of its one document. A layout goes
through both unchanged, for it is `Tame`: it has the characters of words and a few marks, and a
space behind every dash. So no line of it is a directive, ends a document or starts one.

With that every document of words is read back from its YAML (`ofText?_yaml`).
-/

namespace Tableau.Yaml

/-! ## The characters of a layout -/

/-- A character of words, or a mark that layouts have besides the dash. -/
def isLayoutCharacter (c : Char) : Bool :=
  isNameCharacter c || c ∈ [' ', '\n', ':', '[', ']', '\x7b', '\x7d', '\x27']

/-- Of characters that layouts have; a dash has a space behind it. -/
inductive Tame : List Char → Prop
  | nil : Tame []
  | dash {rest : List Char} : Tame rest → Tame ('-' :: ' ' :: rest)
  | cons {c : Char} {rest : List Char} : isLayoutCharacter c = true → Tame rest → Tame (c :: rest)

namespace Tame

variable {text behind : List Char}

theorem append (h : Tame text) (hbehind : Tame behind) : Tame (text ++ behind) := by
  induction h with
  | nil => exact hbehind
  | dash _ ih => exact .dash ih
  | cons hc _ ih => exact .cons hc ih

theorem tail {c : Char} (h : Tame (c :: text)) : Tame text := by
  cases h with
  | dash h => exact .cons rfl h
  | cons _ h => exact h

theorem of_append (h : Tame (text ++ behind)) : Tame behind := by
  induction text with
  | nil => exact h
  | cons c text ih => exact ih h.tail

theorem forall_mem (h : Tame text) : ∀ c ∈ text, isLayoutCharacter c = true ∨ c = '-' := by
  induction h with
  | nil => exact List.forall_mem_nil _
  | dash _ ih =>
    exact List.forall_mem_cons.2 ⟨.inr rfl, List.forall_mem_cons.2 ⟨.inl rfl, ih⟩⟩
  | cons hc _ ih => exact List.forall_mem_cons.2 ⟨.inl hc, ih⟩

theorem not_mem {c : Char} (h : Tame text) (hc : isLayoutCharacter c = false) (hdash : c ≠ '-') :
    c ∉ text := by
  intro hmem
  rcases h.forall_mem c hmem with h | h
  · rw [hc] at h
    cases h
  · exact hdash h

theorem ofWord {word : List Char} (h : ∀ c ∈ word, isNameCharacter c = true) : Tame word := by
  induction word with
  | nil => exact .nil
  | cons c word ih =>
    obtain ⟨hc, hword⟩ := List.forall_mem_cons.1 h
    exact .cons (by rw [isLayoutCharacter, hc, Bool.true_or]) (ih hword)

theorem indentation (column : Nat) : Tame (Scalar.indentation column) := by
  induction column with
  | zero => exact .nil
  | succ column ih => exact .cons rfl ih

end Tame

theorem Atom.tame {node : Yaml} {text : List Char} (h : Atom node text) : Tame text := by
  cases h with
  | plain hword => exact .ofWord hword.forall_mem
  | quoted hword => exact .cons rfl ((Tame.ofWord hword.forall_mem).append (.cons rfl .nil))
  | sequence | mapping => exact .cons rfl (.cons rfl .nil)

mutual

theorem Layout.tame {column : Nat} {node : Yaml} {text : List Char} :
    Layout column node text → Tame text
  | .atom hatom => hatom.tame
  | .sequence hitems => hitems.tame
  | .mapping hentries => hentries.tame

theorem Items.tame {column : Nat} {nodes : List Yaml} {text : List Char} :
    Items column nodes text → Tame text
  | .last hnode => .dash hnode.tame
  | .next hnode hitems =>
    .dash (hnode.tame.append (.cons rfl ((Tame.indentation column).append hitems.tame)))

theorem Entries.tame {column : Nat} {entries : List (Yaml × Yaml)} {text : List Char} :
    Entries column entries text → Tame text
  | .last hword hnode => (Tame.ofWord hword.forall_mem).append (.cons rfl hnode.tame)
  | .next hword hnode hentries =>
    (Tame.ofWord hword.forall_mem).append (.cons rfl (hnode.tame.append
      (.cons rfl ((Tame.indentation column).append hentries.tame))))

theorem Behind.tame {column : Nat} {node : Yaml} {text : List Char} :
    Behind column node text → Tame text
  | .atom hatom => .cons rfl hatom.tame
  | .sequence hitems => .cons rfl ((Tame.indentation column).append hitems.tame)
  | .mapping hentries => .cons rfl ((Tame.indentation (column + 2)).append hentries.tame)

end

/-! ## Cleaning -/

theorem unifyBreaks_eq_self {text : List Char} (h : ∀ c ∈ text, c ≠ '\r' ∧ c ≠ '\u0085') :
    unifyBreaks text = text := by
  induction text with
  | nil => rfl
  | cons c text ih =>
    obtain ⟨⟨hreturn, hnext⟩, htext⟩ := List.forall_mem_cons.1 h
    rw [unifyBreaks, ih htext]
    · simp [hreturn, hnext]
    · exact fun _ hc _ => hreturn hc

theorem isAllowed_of_isNameCharacter {c : Char} (h : isNameCharacter c = true) :
    isAllowed c = true := by
  obtain ⟨hlow, hhigh⟩ := range_of_isNameCharacter h
  simp only [isAllowed, Bool.or_eq_true, Bool.and_eq_true, decide_eq_true_eq]
  omega

theorem Tame.isAllowed {text : List Char} (h : Tame text) :
    ∀ c ∈ text, Yaml.isAllowed c = true := by
  have hmarks : [' ', '\n', ':', '[', ']', '\x7b', '\x7d', '\x27'].all Yaml.isAllowed = true := rfl
  intro c hc
  rcases h.forall_mem c hc with hlayout | rfl
  · rcases Bool.or_eq_true_iff.1 hlayout with hword | hmark
    · exact isAllowed_of_isNameCharacter hword
    · exact List.all_eq_true.1 hmarks c (of_decide_eq_true hmark)
  · rfl

/-- Cleaning leaves a layout as it is. -/
theorem Tame.clean? {text : List Char} (h : Tame text) : Yaml.clean? text = some text := by
  have hbreaks : ∀ c ∈ text, c ≠ '\r' ∧ c ≠ '\u0085' := by
    intro c hc
    constructor
    · rintro rfl
      exact h.not_mem rfl (by decide) hc
    · rintro rfl
      exact h.not_mem rfl (by decide) hc
  unfold Yaml.clean?
  split
  · exact absurd List.mem_cons_self (h.not_mem rfl (by decide))
  · rw [if_pos (List.all_eq_true.2 h.isAllowed), unifyBreaks_eq_self hbreaks]

/-! ## Lines -/

section Lines

variable {text line : List Char}

/-- A line is a part of the text. -/
theorem infix_of_mem_linesOf (h : line ∈ linesOf text) : line <:+: text := by
  have hinfix := List.infix_of_mem_flatten h
  rwa [flatten_linesOf] at hinfix

theorem Tame.not_isVersionLine (h : Tame text) (hline : line ∈ linesOf text) :
    isVersionLine line = false := by
  have hmem : '%' ∉ trimEnd (line.takeWhile fun c => c ≠ '#' && !isBreak c) := by
    intro hmem
    rw [trimEnd, List.mem_reverse] at hmem
    have hdirective := List.mem_reverse.1 ((List.dropWhile_sublist _).mem hmem)
    have hpercent := (List.takeWhile_sublist _).mem hdirective
    exact h.not_mem rfl (by decide) ((infix_of_mem_linesOf hline).subset hpercent)
  unfold isVersionLine
  apply Bool.or_eq_false_iff.2
  constructor
  · apply decide_eq_false
    intro heq
    rw [heq] at hmem
    exact hmem (by decide)
  · apply decide_eq_false
    intro heq
    rw [heq] at hmem
    exact hmem (by decide)

theorem Tame.not_dashes (h : Tame ('-' :: '-' :: text)) : False := by
  cases h with
  | cons hc _ => cases hc

/-- No line of a layout ends a document or starts one. -/
theorem Tame.not_isMarker (h : Tame text) (hline : line ∈ linesOf text) :
    isMarker line = false := by
  have hfront : ∀ c, line.take 3 = [c, c, c] → line = c :: c :: c :: line.drop 3 := by
    intro c htake
    conv => lhs; rw [← List.take_append_drop 3 line, htake]
    rfl
  obtain ⟨before, behind, htext⟩ := infix_of_mem_linesOf hline
  unfold isMarker isMarkLine
  apply Bool.or_eq_false_iff.2
  constructor
  · rw [decide_eq_false, Bool.false_and]
    intro htake
    rw [hfront '-' htake] at htext
    rw [← htext, List.append_assoc] at h
    exact h.of_append.not_dashes
  · rw [decide_eq_false, Bool.false_and]
    intro htake
    have hmem : '.' ∈ line := hfront '.' htake ▸ List.mem_cons_self
    exact h.not_mem rfl (by decide) ((infix_of_mem_linesOf hline).subset hmem)

/-- The first line of a text starts with what the text starts with. -/
theorem Opens.exists_linesOf (h : Opens text) :
    ∃ first lines, linesOf text = first :: lines ∧ isEmptyLine first = false := by
  obtain ⟨c, rest, rfl, hc⟩ := h
  have hfirst : ∃ behind lines, linesOf (c :: rest) = (c :: behind) :: lines := by
    simp only [linesOf, List.foldr_cons, hc.not_break, Bool.false_eq_true, if_false]
    split
    · exact ⟨_, _, rfl⟩
    · exact ⟨_, _, rfl⟩
  obtain ⟨behind, lines, hlines⟩ := hfirst
  refine ⟨c :: behind, lines, hlines, ?_⟩
  have hblank : ¬ isBlank c = true := by
    simp [isBlank, hc.ne_space, hc.ne_tab]
  rw [isEmptyLine, List.dropWhile_cons_of_neg hblank]
  simp [hc.ne_comment, hc.not_break]

end Lines

/-- The lines of a layout are the lines of one document. -/
theorem Tame.contentLines? {text : List Char} (h : Tame text) (hopens : Opens text) :
    Yaml.contentLines? (linesOf text) = some (linesOf text, false) := by
  have hmarker : ∀ line ∈ linesOf text, (!isMarker line) = true := by
    intro line hline
    rw [h.not_isMarker hline]
    rfl
  have hversion : (linesOf text).any isVersionLine = false := by
    apply List.any_eq_false.2
    intro line hline
    rw [h.not_isVersionLine hline]
    exact Bool.false_ne_true
  obtain ⟨first, lines, hlines, hempty⟩ := hopens.exists_linesOf
  have hfirst : first ∈ linesOf text := hlines ▸ List.mem_cons_self
  have hhead : (first :: lines).dropWhile (fun line => isEmptyLine line || isVersionLine line) =
      first :: lines := by
    apply List.dropWhile_cons_of_neg
    rw [hempty, h.not_isVersionLine hfirst]
    exact Bool.false_ne_true
  obtain ⟨hopening, hclosing⟩ := Bool.or_eq_false_iff.1 (h.not_isMarker hfirst)
  have htake : (linesOf text).takeWhile (fun line => !isMarker line) = linesOf text := by
    have hall : (linesOf text ++ []).takeWhile _ = linesOf text ++ [] :=
      List.takeWhile_append_of_pos hmarker
    rwa [List.append_nil] at hall
  have hdrop : (linesOf text).dropWhile (fun line => !isMarker line) = [] := by
    have hall : (linesOf text ++ []).dropWhile _ = [] := List.dropWhile_append_of_pos hmarker
    rwa [List.append_nil] at hall
  unfold Yaml.contentLines?
  rw [hlines] at htake hdrop hversion ⊢
  simp only [hversion, hhead, hopening, hclosing, Bool.false_and, Bool.false_or,
    Bool.false_eq_true, if_false, List.head?_cons, Option.any_some, htake, hdrop]

/-- **YAML loses nothing of words**: every document whose texts and field names are words is read
back from its YAML. -/
theorem ofText?_yaml {document : Document} (h : Worded document) :
    ofText? document.yaml = some (ofDocument document) := by
  obtain ⟨text, htext, hlayout⟩ := layout_yaml h
  have hopens : Opens (text ++ ['\n']) := hlayout.opens.append _
  have htame : Tame (text ++ ['\n']) := hlayout.tame.append (.cons rfl .nil)
  have hfuel : 5 * text.length ≤ 5 * (text ++ ['\n']).length + 9 := by
    rw [List.length_append]
    omega
  have hread : ∃ behind, blockNode? (5 * (text ++ ['\n']).length + 9) 0 ⟨0, text ++ ['\n'], []⟩ =
      some (ofDocument document, ⟨behind, ['\n'], []⟩) :=
    hlayout.read .nothing (.inl rfl) (Nat.le_refl 0) hfuel
  obtain ⟨behind, hread⟩ := hread
  have hnode : nodeBehind? (5 * (text ++ ['\n']).length + 10) 0 0 true ⟨0, text ++ ['\n'], []⟩ =
      some (ofDocument document, ⟨behind, ['\n'], []⟩) := by
    obtain ⟨c, rest, hcons, -⟩ := id hopens
    rw [nodeBehind?, toContent_opens hopens, hcons]
    rw [hcons] at hread
    exact hread
  unfold ofText?
  rw [htext, htame.clean?]
  simp only [Option.bind_eq_bind, Option.bind_some, htame.contentLines? hopens, flatten_linesOf]
  show (nodeBehind? (5 * (text ++ ['\n']).length + 10) 0 0 true ⟨0, text ++ ['\n'], []⟩).bind _ = _
  rw [hnode]
  rfl

end Tableau.Yaml
