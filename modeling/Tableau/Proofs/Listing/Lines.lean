import Tableau.Proofs.Token.Scan

/-!
# What can be read off a listing

A listing is a text of lines, and its lines can be read off it as long as there is no line feed in
them (`unlines_injective`). Inside a line, a numeral ends where the digits end
(`Numeral.repr_append_inj`), and so the text of a value tells how many numbers there are and which
(`Value.text_injective`). A label ends where its letters end, and a quoted text behind it is what is
left of the line (`labelled_inj`).
-/

namespace Tableau

/-- A word is told from what is behind it by where its characters end. -/
theorem append_inj_of_stop {p : Char → Bool} {word word' rest rest' : List Char}
    (hword : ∀ c ∈ word, p c = true) (hrest : ∀ c ∈ rest.head?, p c = false)
    (hword' : ∀ c ∈ word', p c = true) (hrest' : ∀ c ∈ rest'.head?, p c = false)
    (h : word ++ rest = word' ++ rest') : word = word' ∧ rest = rest' := by
  have hsame := congrArg (List.takeWhile p) h
  rw [Token.takeWhile_append_of_stop hword hrest,
    Token.takeWhile_append_of_stop hword' hrest'] at hsame
  subst hsame
  exact ⟨rfl, List.append_cancel_left h⟩

/-! ## Lines -/

/-- The text can stand in one line. -/
def OneLine (text : String) : Prop := '\n' ∉ text.toList

instance (text : String) : Decidable (OneLine text) := inferInstanceAs (Decidable (_ ∉ _))

theorem oneLine_append {first second : String} :
    OneLine (first ++ second) ↔ OneLine first ∧ OneLine second := by
  unfold OneLine
  rw [String.toList_append, List.mem_append, not_or]

/-- No name of a text has a line feed in it. -/
theorem Token.IsName.oneLine {name : String} (h : IsName name.toList) : OneLine name := by
  intro hfeed
  cases h.identifier.forall_mem _ hfeed

/-- No numeral has a line feed in it. -/
theorem Numeral.oneLine_of_isNumeral {text : String} (h : isNumeral text.toList = true) :
    OneLine text := by
  intro hfeed
  cases List.all_eq_true.1 (Bool.and_eq_true_iff.1 h).2 _ hfeed

/-- The text of some lines. -/
def unlines (lines : List String) : String := String.join (lines.map (· ++ "\n"))

theorem toList_unlines_cons (line : String) (lines : List String) :
    (unlines (line :: lines)).toList = line.toList ++ '\n' :: (unlines lines).toList := by
  rw [unlines, List.map_cons, String.join_cons, String.toList_append, String.toList_append,
    List.append_assoc]
  rfl

theorem unlines_cons_ne_empty (line : String) (lines : List String) :
    unlines (line :: lines) ≠ "" := by
  intro h
  have hempty := (toList_unlines_cons line lines).symm.trans (congrArg String.toList h)
  exact absurd hempty (List.append_ne_nil_of_right_ne_nil _ (List.cons_ne_nil _ _))

theorem unlines_append (lines lines' : List String) :
    unlines (lines ++ lines') = unlines lines ++ unlines lines' := by
  unfold unlines
  rw [List.map_append, String.join_append]

/-- Blocks of lines, one behind the other, are the lines of all of them. -/
theorem join_map_unlines {α : Type} (block : α → List String) (items : List α) :
    String.join (items.map fun item => unlines (block item)) = unlines (items.flatMap block) := by
  induction items with
  | nil => rfl
  | cons item items ih =>
    rw [List.map_cons, String.join_cons, ih, List.flatMap_cons, unlines_append]

/-- A line without line feeds is told from what is behind it. -/
theorem OneLine.append_inj {line line' : String} {rest rest' : List Char} (hline : OneLine line)
    (hline' : OneLine line') (h : line.toList ++ '\n' :: rest = line'.toList ++ '\n' :: rest') :
    line = line' ∧ rest = rest' := by
  have kept : ∀ {line : String}, OneLine line → ∀ c ∈ line.toList, (c != '\n') = true :=
    fun hline c hc => bne_iff_ne.2 fun hfeed => hline (hfeed ▸ hc)
  have ended : ∀ rest : List Char, ∀ c ∈ ('\n' :: rest).head?, (c != '\n') = false :=
    fun rest c hc => by rw [← Option.some.inj hc, bne_self_eq_false]
  obtain ⟨hsame, hrest⟩ := append_inj_of_stop (kept hline) (ended _) (kept hline') (ended _) h
  exact ⟨String.toList_inj.1 hsame, (List.cons.inj hrest).2⟩

/-- Lines without line feeds can be read off their text. -/
theorem unlines_injective {lines lines' : List String} (hlines : ∀ line ∈ lines, OneLine line)
    (hlines' : ∀ line ∈ lines', OneLine line) (h : unlines lines = unlines lines') :
    lines = lines' := by
  induction lines generalizing lines' with
  | nil =>
    cases lines' with
    | nil => rfl
    | cons line' lines' => exact absurd h.symm (unlines_cons_ne_empty line' lines')
  | cons line lines ih =>
    cases lines' with
    | nil => exact absurd h (unlines_cons_ne_empty line lines)
    | cons line' lines' =>
      obtain ⟨hline, hrows⟩ := List.forall_mem_cons.1 hlines
      obtain ⟨hline', hrows'⟩ := List.forall_mem_cons.1 hlines'
      rw [← String.toList_inj, toList_unlines_cons, toList_unlines_cons] at h
      obtain ⟨rfl, hrest⟩ := hline.append_inj hline' h
      rw [ih hrows hrows' (String.toList_inj.1 hrest)]

/-! ## Numbers -/

theorem Numeral.isDigit_of_mem_repr {n : Nat} {c : Char} (h : c ∈ n.repr.toList) :
    c.isDigit = true := isDigit_of_mem_toDigits (Nat.toList_repr ▸ h)

theorem Numeral.repr_inj {m n : Nat} (h : m.repr.toList = n.repr.toList) : m = n := by
  rw [Nat.toList_repr, Nat.toList_repr] at h
  rw [← value_toDigits m, h, value_toDigits]

/-- A number is told from what is behind it by where its digits end. -/
theorem Numeral.repr_append_inj {m n : Nat} {rest rest' : List Char}
    (hrest : ∀ c ∈ rest.head?, c.isDigit = false) (hrest' : ∀ c ∈ rest'.head?, c.isDigit = false)
    (h : m.repr.toList ++ rest = n.repr.toList ++ rest') : m = n ∧ rest = rest' :=
  (append_inj_of_stop (fun _ => isDigit_of_mem_repr) hrest (fun _ => isDigit_of_mem_repr) hrest'
    h).imp_left repr_inj

/-! ## Labels -/

theorem Attribute.label_injective : Function.Injective Attribute.label := by
  intro attr attr'
  cases attr <;> cases attr' <;> decide

theorem Color.label_injective : Function.Injective Color.label := by
  intro color color'
  cases color <;> cases color' <;> decide

theorem Placement.label_injective : Function.Injective Placement.label := by
  intro placement placement'
  cases placement <;> cases placement' <;> decide

theorem Shape.Kind.label_injective : Function.Injective Shape.Kind.label := by
  intro kind kind'
  cases kind <;> cases kind' <;> decide

theorem Token.Kind.label_injective : Function.Injective Token.Kind.label := by
  intro kind kind' h
  have hread := congrArg ofLabel? h
  rw [ofLabel?_label, ofLabel?_label] at hread
  exact Option.some.inj hread

/-- The label of a kind is a word, and so it is told from what stands behind it. -/
theorem Shape.Kind.isAlpha_label (kind : Shape.Kind) :
    ∀ c ∈ kind.label.toList, c.isAlpha = true := by
  cases kind <;> exact List.all_eq_true.1 rfl

theorem Token.Kind.isAlpha_label (kind : Token.Kind) :
    ∀ c ∈ kind.label.toList, c.isAlpha = true := by
  cases kind with
  | shape kind => exact kind.isAlpha_label
  | color color => cases color <;> exact List.all_eq_true.1 rfl
  | area area => cases area; exact List.all_eq_true.1 rfl
  | attr attr => cases attr <;> exact List.all_eq_true.1 rfl
  | _ => exact List.all_eq_true.1 rfl

/-- A text that stands in quotation marks behind a label is told from it. The text itself may hold
blanks and quotation marks. -/
theorem labelled_inj {label label' text text' : String}
    (hlabel : ∀ c ∈ label.toList, c.isAlpha = true)
    (hlabel' : ∀ c ∈ label'.toList, c.isAlpha = true)
    (h : label ++ " \"" ++ text ++ "\"" = label' ++ " \"" ++ text' ++ "\"") :
    label = label' ∧ text = text' := by
  -- The quotation mark at the end is cut off, and then the label ends at its first blank.
  rw [String.append_left_inj, ← String.toList_inj] at h
  simp only [String.toList_append, List.append_assoc] at h
  have ended : ∀ text : List Char, ∀ c ∈ (" \"".toList ++ text).head?, c.isAlpha = false :=
    fun text c hc => by rw [← Option.some.inj hc]; rfl
  obtain ⟨hsame, htext⟩ := append_inj_of_stop hlabel (ended _) hlabel' (ended _) h
  exact ⟨String.toList_inj.1 hsame, String.toList_inj.1 (List.append_cancel_left htext)⟩

/-! ## Values -/

namespace Value

/-- The numbers behind the first one as they are written. -/
def further (numbers : List UInt32) : List Char :=
  numbers.flatMap fun n => ',' :: ' ' :: n.toNat.repr.toList

theorem further_cons (n : UInt32) (numbers : List UInt32) :
    further (n :: numbers) = ',' :: ' ' :: (n.toNat.repr.toList ++ further numbers) := by
  simp only [further, List.flatMap_cons, List.cons_append]

theorem intercalate_cons (n : UInt32) (numbers : List UInt32) :
    (", ".intercalate ((n :: numbers).map (·.toNat.repr))).toList =
      n.toNat.repr.toList ++ further numbers := by
  induction numbers generalizing n with
  | nil =>
    rw [List.map_singleton, String.intercalate_singleton]
    exact (List.append_nil _).symm
  | cons next numbers ih =>
    have hnext := ih next
    rw [List.map_cons] at hnext
    rw [List.map_cons, List.map_cons, String.intercalate_cons_cons, String.toList_append, hnext,
      further_cons, String.toList_append, List.append_assoc]
    rfl

theorem head?_further (numbers : List UInt32) :
    ∀ c ∈ (further numbers).head?, c.isDigit = false := by
  intro c hc
  cases numbers with
  | nil => cases hc
  | cons n numbers =>
    obtain rfl := Option.some.inj hc
    rfl

/-- A number and those behind it can be read off. -/
theorem number_append_inj {n n' : UInt32} {numbers numbers' : List UInt32}
    (h : n.toNat.repr.toList ++ further numbers = n'.toNat.repr.toList ++ further numbers') :
    n = n' ∧ further numbers = further numbers' :=
  (Numeral.repr_append_inj (head?_further numbers) (head?_further numbers') h).imp_left
    UInt32.toNat_inj.1

theorem further_injective : Function.Injective further := by
  intro numbers numbers' h
  induction numbers generalizing numbers' with
  | nil =>
    cases numbers' with
    | nil => rfl
    | cons n' numbers' => cases h
  | cons n numbers ih =>
    cases numbers' with
    | nil => cases h
    | cons n' numbers' =>
      rw [further_cons, further_cons] at h
      obtain ⟨rfl, hrest⟩ := number_append_inj (List.cons.inj (List.cons.inj h).2).2
      rw [ih hrest]

/-- The numbers of a value can be read off its text. -/
theorem text_injective : Function.Injective Value.text := by
  intro ⟨numbers⟩ ⟨numbers'⟩ h
  unfold text at h
  -- Between the brackets there is nothing at all, or a digit in front.
  rw [String.append_left_inj, String.append_right_inj, ← String.toList_inj] at h
  have hne : ∀ (n : UInt32) (numbers : List UInt32),
      n.toNat.repr.toList ++ further numbers ≠ [] := fun n numbers => by
    obtain ⟨c, digits, hcons, -⟩ := Numeral.exists_toDigits_eq_cons n.toNat
    rw [Nat.toList_repr, hcons]
    exact List.cons_ne_nil _ _
  cases numbers with
  | nil =>
    cases numbers' with
    | nil => rfl
    | cons n' numbers' => exact absurd (intercalate_cons n' numbers' ▸ h.symm) (hne n' numbers')
  | cons n numbers =>
    cases numbers' with
    | nil => exact absurd (intercalate_cons n numbers ▸ h) (hne n numbers)
    | cons n' numbers' =>
      rw [intercalate_cons, intercalate_cons] at h
      obtain ⟨rfl, hrest⟩ := number_append_inj h
      rw [further_injective hrest]

/-- The text of a value stands in one line. -/
theorem oneLine_text (value : Value) : OneLine value.text := by
  obtain ⟨numbers⟩ := value
  have hdigits : ∀ n : UInt32, '\n' ∉ n.toNat.repr.toList := fun n hn => by
    have hdigit := Numeral.isDigit_of_mem_repr hn
    cases hdigit
  have hfurther : '\n' ∉ further numbers.tail := by
    intro hmem
    obtain ⟨n, -, hn⟩ := List.mem_flatMap.1 hmem
    simp only [List.mem_cons, Char.reduceEq, false_or] at hn
    exact hdigits n hn
  unfold text
  refine oneLine_append.2 ⟨oneLine_append.2 ⟨by decide, ?_⟩, by decide⟩
  cases numbers with
  | nil => decide
  | cons n numbers =>
    unfold OneLine
    rw [intercalate_cons, List.mem_append, not_or]
    exact ⟨hdigits n, hfurther⟩

end Value

end Tableau
