import Mathlib.Tactic.SplitIfs
import Tableau.Json.Printer
import Tableau.Json.Reader
import Tableau.Proofs.Document.Faithful

/-!
# Reading the JSON of a document

Every document is read back from its JSON (`Json.ofText?_json`): a string literal denotes the text
that it is written for, whatever characters it has; a numeral is read up to its last digit; and
between brackets the readers of items and members take one row after the other.
-/

namespace Tableau.Json

/-- The value that a document is written as. -/
def ofDocument : Document → Json :=
  Document.fold (fun n => .number n.toNat.repr) .string .array .object

theorem ofDocument_list (items : List Document) :
    ofDocument (.list items) = .array (items.map ofDocument) :=
  Document.fold_list ..

theorem ofDocument_record (fields : List (String × Document)) :
    ofDocument (.record fields) =
      .object (fields.map fun field => (field.1, ofDocument field.2)) :=
  Document.fold_record ..

theorem faithful_ofDocument : Document.Faithful ofDocument where
  number n := by
    show (Numeral.read? n.toNat.repr.toList).bind Numeral.word32? = some n
    rw [Nat.toList_repr, Numeral.read?_toDigits, Option.bind_some, Numeral.word32?_toNat]
  text _ := rfl
  word _ := rfl
  items items := congrArg items? (ofDocument_list items)
  fields names items h hlength := by
    show fields? names (ofDocument _) = _
    rw [ofDocument_record]
    exact selectFields_zip ofDocument h hlength

/-! ## String literals -/

theorem readRadix?_hexPair {n : Nat} (h : n < 0x20) :
    Numeral.readRadix? 16 (['0', '0'] ++ hexPair n) = some n := by
  have hpairs : ∀ m : Fin 0x20,
      Numeral.readRadix? 16 (['0', '0'] ++ hexPair m.val) = some m.val := by
    decide +kernel
  exact hpairs ⟨n, h⟩

/-- A character is read from what is written for it. -/
theorem stringUnits_escape (c : Char) (units : List Nat) (rest : List Char) :
    stringUnits units (escape c ++ rest) = stringUnits (c.toNat :: units) rest := by
  unfold escape
  split_ifs with hquote hbackslash hletter hletter hletter hletter hletter hcontrol
  · rw [hquote]; rfl
  · rw [hbackslash]; rfl
  · rw [hletter]; rfl
  · rw [hletter]; rfl
  · rw [hletter]; rfl
  · rw [hletter]; rfl
  · rw [hletter]; rfl
  · have hpair := readRadix?_hexPair hcontrol
    simp only [hexPair, List.cons_append, List.nil_append, stringUnits] at hpair ⊢
    rw [hpair]
  · rw [List.singleton_append, stringUnits.eq_def]
    simp [hbackslash, hcontrol]

/-- The characters of a text are read up to the closing mark. -/
theorem stringUnits_quoted (text : List Char) (units : List Nat) (rest : List Char) :
    stringUnits units (text.flatMap escape ++ '\x22' :: rest) =
      some ((text.map Char.toNat).reverse ++ units, rest) := by
  induction text generalizing units with
  | nil => rfl
  | cons c text ih =>
    rw [List.flatMap_cons, List.append_assoc, stringUnits_escape, ih, List.map_cons,
      List.reverse_cons, List.append_assoc, List.singleton_append]

/-- A character is no half of a surrogate pair. -/
theorem not_surrogate (c : Char) :
    isLowSurrogate c.toNat = false ∧ isHighSurrogate c.toNat = false := by
  have hvalid : c.toNat < 0xd800 ∨ 0xdfff < c.toNat ∧ c.toNat < 0x110000 := c.valid
  constructor
  · apply Bool.eq_false_iff.2
    intro h
    simp only [isLowSurrogate, Bool.and_eq_true, decide_eq_true_eq] at h
    omega
  · apply Bool.eq_false_iff.2
    intro h
    simp only [isHighSurrogate, Bool.and_eq_true, decide_eq_true_eq] at h
    omega

theorem joinUnits_toNat (text behind : List Char) :
    joinUnits behind (text.map Char.toNat) = some (text.reverse ++ behind) := by
  induction text generalizing behind with
  | nil => rfl
  | cons c text ih =>
    obtain ⟨hlow, hhigh⟩ := not_surrogate c
    have hstep : joinUnits behind (c.toNat :: text.map Char.toNat) =
        joinUnits (c :: behind) (text.map Char.toNat) := by
      cases text with
      | nil =>
        show (if isLowSurrogate c.toNat || isHighSurrogate c.toNat then none
          else some (Char.ofNat c.toNat :: behind)) = some (c :: behind)
        rw [hlow, hhigh, Char.ofNat_toNat]
        rfl
      | cons d text =>
        rw [List.map_cons, joinUnits, hlow, hhigh, Char.ofNat_toNat]
        rfl
    rw [List.map_cons, hstep, ih, List.reverse_cons, List.append_assoc, List.singleton_append]

/-- The characters of a string literal behind its opening mark. -/
def quoted (text : String) : List Char := text.toList.flatMap escape ++ ['\x22']

theorem toList_quote (text : String) : (quote text).toList = '\x22' :: quoted text := by
  simp [quote, quoted]

/-- A string literal denotes the text that it is written for. -/
theorem stringText?_quoted (text : String) (rest : List Char) :
    stringText? (quoted text ++ rest) = some (some text, rest) := by
  unfold stringText? quoted
  rw [List.append_assoc, List.singleton_append, stringUnits_quoted, List.append_nil,
    ← List.map_reverse]
  show some ((joinUnits [] _).map String.ofList, rest) = _
  rw [joinUnits_toNat, List.reverse_reverse, List.append_nil, Option.map_some,
    String.ofList_toList]

/-! ## Numerals -/

/-- What may stand behind a value: nothing, a comma or a line feed. -/
def EndsValue (rest : List Char) : Prop := ∀ c ∈ rest.head?, c = ',' ∨ c = '\n'

theorem endsValue_cons {c : Char} {rest : List Char} (h : c = ',' ∨ c = '\n') :
    EndsValue (c :: rest) := by
  intro d hd
  obtain rfl := Option.some.inj hd
  exact h

theorem takeWhile_toDigits {n : Nat} {rest : List Char} (h : EndsValue rest) :
    (Nat.toDigits 10 n ++ rest).takeWhile Char.isDigit = Nat.toDigits 10 n ∧
      (Nat.toDigits 10 n ++ rest).dropWhile Char.isDigit = rest := by
  have hdigits : ∀ c ∈ Nat.toDigits 10 n, c.isDigit = true := fun _ =>
    Numeral.isDigit_of_mem_toDigits
  rw [List.takeWhile_append_of_pos hdigits, List.dropWhile_append_of_pos hdigits]
  cases rest with
  | nil => exact ⟨List.append_nil _, rfl⟩
  | cons c rest =>
    have hc : c.isDigit = false := by
      rcases h c rfl with rfl | rfl <;> rfl
    rw [List.takeWhile_cons_of_neg (by simp [hc]), List.dropWhile_cons_of_neg (by simp [hc])]
    exact ⟨List.append_nil _, rfl⟩

theorem EndsValue.fraction? {rest : List Char} (h : EndsValue rest) :
    Json.fraction? rest = some ([], rest) := by
  unfold Json.fraction?
  split
  · rcases h '.' rfl with h | h <;> exact absurd h (by decide)
  · rfl

theorem EndsValue.exponent? {rest : List Char} (h : EndsValue rest) :
    Json.exponent? rest = some ([], rest) := by
  cases rest with
  | nil => rfl
  | cons c rest => rcases h c rfl with rfl | rfl <;> rfl

/-- A numeral is read up to its last digit. -/
theorem numeral?_toDigits (n : Nat) {rest : List Char} (h : EndsValue rest) :
    numeral? (Nat.toDigits 10 n ++ rest) = some (Nat.toDigits 10 n, rest) := by
  obtain ⟨htake, hdrop⟩ := takeWhile_toDigits (n := n) h
  have hne : Nat.toDigits 10 n ≠ [] := List.ne_nil_of_length_pos Nat.length_toDigits_pos
  have hsign : optional (· = '-') (Nat.toDigits 10 n ++ rest) =
      ([], Nat.toDigits 10 n ++ rest) := by
    obtain ⟨c, digits, hcons, hc⟩ := Numeral.exists_toDigits_eq_cons n
    rw [hcons]
    apply if_neg
    intro hminus
    rw [of_decide_eq_true hminus] at hc
    cases hc
  have hwhole : digits? (Nat.toDigits 10 n ++ rest) = some (Nat.toDigits 10 n, rest) := by
    unfold digits?
    rw [htake, hdrop]
    split
    · next hnil => exact absurd hnil hne
    · rfl
  have hzero : ¬ ((Nat.toDigits 10 n).length > 1 && (Nat.toDigits 10 n).head? = some '0') := by
    intro hzero
    obtain ⟨hlength, hhead⟩ := Bool.and_eq_true_iff.1 hzero
    by_cases hn : n = 0
    · rw [hn] at hlength
      exact absurd hlength (by decide)
    · exact Numeral.head?_toDigits_ne_zero hn (of_decide_eq_true hhead)
  unfold numeral?
  rw [hsign]
  simp only [hwhole, h.fraction?, h.exponent?, Option.bind_eq_bind, Option.bind_some,
    List.nil_append, List.append_nil]
  rw [if_neg hzero]
  rfl

theorem atom?_toDigits (n : Nat) {rest : List Char} (h : EndsValue rest) :
    atom? (Nat.toDigits 10 n ++ rest) = some (.number n.repr, rest) := by
  obtain ⟨c, digits, hcons, hc⟩ := Numeral.exists_toDigits_eq_cons n
  have hword : ∀ (first : Char) (word : String), first.isDigit = false →
      word.toList.head? = some first → afterWord? word (Nat.toDigits 10 n ++ rest) = none := by
    intro first word hfirst hhead
    obtain ⟨letters, hletters⟩ := List.head?_eq_some_iff.1 hhead
    unfold afterWord?
    rw [hletters, hcons]
    apply if_neg
    intro hprefix
    obtain ⟨hsame, -⟩ := Bool.and_eq_true_iff.1 hprefix
    rw [eq_of_beq hsame, hc] at hfirst
    cases hfirst
  unfold atom?
  rw [hword 'n' "null" rfl rfl, hword 't' "true" rfl rfl, hword 'f' "false" rfl rfl,
    numeral?_toDigits n h]
  rfl

/-! ## Values -/

/-- The text starts with a character that is no blank and closes neither a list nor a record. -/
def Opens (text : List Char) : Prop :=
  ∃ c rest, text = c :: rest ∧ isBlank c = false ∧ c ≠ ']' ∧ c ≠ '\x7d'

theorem Opens.append {text : List Char} (h : Opens text) (rest : List Char) :
    Opens (text ++ rest) := by
  obtain ⟨c, behind, rfl, hc⟩ := h
  exact ⟨c, behind ++ rest, rfl, hc⟩

theorem skipBlanks_cons {c : Char} {blanks rest : List Char}
    (hblanks : ∀ b ∈ blanks, isBlank b = true) (hc : isBlank c = false) :
    skipBlanks (blanks ++ c :: rest) = c :: rest := by
  unfold skipBlanks
  rw [List.dropWhile_append_of_pos hblanks, List.dropWhile_cons_of_neg (by simp [hc])]

theorem isBlank_of_isDigit {c : Char} (h : c.isDigit = true) : isBlank c = false := by
  apply Bool.eq_false_iff.2
  intro hblank
  simp only [isBlank, Bool.or_eq_true, decide_eq_true_eq] at hblank
  rcases hblank with ((rfl | rfl) | rfl) | rfl <;> cases h

/-- The text is read as the value wherever a value may end behind it. -/
structure Reads (text : List Char) (value : Json) : Prop where
  opens : Opens text
  reads : ∀ fuel blanks rest, (∀ b ∈ blanks, isBlank b = true) → EndsValue rest →
    2 * text.length ≤ fuel → readValue? fuel (blanks ++ (text ++ rest)) = some (value, rest)

theorem reads_number (n : Nat) : Reads (Nat.toDigits 10 n) (.number n.repr) := by
  obtain ⟨c, digits, hcons, hc⟩ := Numeral.exists_toDigits_eq_cons n
  refine ⟨⟨c, digits, hcons, isBlank_of_isDigit hc, ?_, ?_⟩, ?_⟩
  · rintro rfl
    cases hc
  · rintro rfl
    cases hc
  · intro fuel blanks rest hblanks hrest hfuel
    have hread := atom?_toDigits n hrest
    rw [hcons, List.length_cons] at hfuel
    rw [hcons, List.cons_append] at hread ⊢
    obtain ⟨fuel, rfl⟩ : ∃ k, fuel = k + 1 := ⟨fuel - 1, by omega⟩
    rw [readValue?, skipBlanks_cons hblanks (isBlank_of_isDigit hc)]
    split
    · next heq => rw [(List.cons.inj heq).1] at hc; cases hc
    · next heq => rw [(List.cons.inj heq).1] at hc; cases hc
    · next heq => rw [(List.cons.inj heq).1] at hc; cases hc
    · exact hread

theorem reads_string (text : String) : Reads (quote text).toList (.string text) where
  opens := ⟨_, _, toList_quote text, rfl, by decide, by decide⟩
  reads fuel blanks rest hblanks hrest hfuel := by
    rw [toList_quote, List.length_cons] at hfuel
    obtain ⟨fuel, rfl⟩ : ∃ k, fuel = k + 1 := ⟨fuel - 1, by omega⟩
    rw [toList_quote, List.cons_append, readValue?, skipBlanks_cons hblanks rfl]
    show (stringText? (quoted text ++ rest) >>= _) = _
    rw [stringText?_quoted]
    rfl

/-! ## Rows -/

/-- What is written for a field: its name and its value. -/
def fieldText (name : String) (text : List Char) : List Char :=
  (quote name).toList ++ ':' :: ' ' :: text

/-- A member is read up to the comma or the brace behind it. -/
theorem readMembers?_fieldText {name : String} {text : List Char} {value : Json}
    (h : Reads text value) (fuel : Nat) (blanks rest : List Char)
    (hblanks : ∀ b ∈ blanks, isBlank b = true) (hrest : EndsValue rest)
    (hfuel : 2 * text.length ≤ fuel) :
    readMembers? (fuel + 1) (blanks ++ (fieldText name text ++ rest)) =
      match skipBlanks rest with
      | ',' :: rest => do
        let (members, rest) ← readMembers? fuel rest
        return ((some name, value) :: members, rest)
      | '\x7d' :: rest => return ([(some name, value)], rest)
      | _ => none := by
  have hspace : ∀ b ∈ [' '], isBlank b = true := List.forall_mem_singleton.2 rfl
  have hread := h.reads fuel [' '] rest hspace hrest hfuel
  rw [fieldText, toList_quote, List.cons_append, List.cons_append, List.append_assoc, readMembers?,
    skipBlanks_cons hblanks rfl]
  show (stringText? (quoted name ++ ':' :: ([' '] ++ (text ++ rest))) >>= _) = _
  rw [stringText?_quoted]
  show (readValue? fuel ([' '] ++ (text ++ rest)) >>= _) = _
  rw [hread]
  rfl

/-- An item is read up to the comma or the bracket behind it. -/
theorem readItems?_text {text : List Char} {value : Json} (h : Reads text value) (fuel : Nat)
    (blanks rest : List Char) (hblanks : ∀ b ∈ blanks, isBlank b = true) (hrest : EndsValue rest)
    (hfuel : 2 * text.length ≤ fuel) :
    readItems? (fuel + 1) (blanks ++ (text ++ rest)) =
      match skipBlanks rest with
      | ',' :: rest => do
        let (items, rest) ← readItems? fuel rest
        return (value :: items, rest)
      | ']' :: rest => return ([value], rest)
      | _ => none := by
  have hread := h.reads fuel blanks rest hblanks hrest hfuel
  rw [readItems?, hread]
  rfl

section Rows

variable {gap closing : List Char} (hgap : ∀ b ∈ gap, isBlank b = true)
  (hclosing : ∀ b ∈ closing, isBlank b = true) (hline : ∃ blanks, closing = '\n' :: blanks)

include hgap hclosing hline

/-- The reader of items takes the rows of a list one after the other. -/
theorem readItems?_rows {α : Type} {text : α → List Char} {value : α → Json} (items : List α)
    (hitems : ∀ a ∈ items, Reads (text a) (value a)) (hne : items ≠ []) (fuel : Nat)
    (blanks rest : List Char) (hblanks : ∀ b ∈ blanks, isBlank b = true)
    (hfuel : 2 * ((',' :: gap).intercalate (items.map text)).length < fuel) :
    readItems? fuel (blanks ++ ((',' :: gap).intercalate (items.map text) ++
        (closing ++ ']' :: rest))) =
      some (items.map value, rest) := by
  induction items generalizing fuel blanks with
  | nil => exact absurd rfl hne
  | cons a items ih =>
    obtain ⟨fuel, rfl⟩ : ∃ k, fuel = k + 1 := ⟨fuel - 1, by omega⟩
    obtain ⟨ha, hrest⟩ := List.forall_mem_cons.1 hitems
    cases items with
    | nil =>
      rw [List.map_singleton, List.intercalate_singleton] at hfuel ⊢
      have hends : EndsValue (closing ++ ']' :: rest) := by
        obtain ⟨behind, rfl⟩ := hline
        exact endsValue_cons (.inr rfl)
      rw [readItems?_text ha fuel blanks _ hblanks hends (by omega), skipBlanks_cons hclosing rfl]
      rfl
    | cons b items =>
      rw [List.map_cons, List.map_cons, List.intercalate_cons_cons] at hfuel ⊢
      rw [← List.map_cons] at hfuel ⊢
      simp only [List.length_append, List.length_cons] at hfuel
      simp only [List.append_assoc, List.cons_append]
      have hbehind := ih hrest (List.cons_ne_nil b items) fuel gap hgap (by omega)
      rw [readItems?_text ha fuel blanks _ hblanks (endsValue_cons (.inl rfl)) (by omega)]
      show (readItems? fuel (gap ++ _) >>= _) = _
      rw [hbehind]
      rfl

/-- The reader of members takes the rows of a record one after the other. -/
theorem readMembers?_rows {α : Type} (name : α → String) {text : α → List Char}
    {value : α → Json} (items : List α) (hitems : ∀ a ∈ items, Reads (text a) (value a))
    (hne : items ≠ []) (fuel : Nat) (blanks rest : List Char)
    (hblanks : ∀ b ∈ blanks, isBlank b = true)
    (hfuel : 2 * ((',' :: gap).intercalate
      (items.map fun a => fieldText (name a) (text a))).length < fuel) :
    readMembers? fuel (blanks ++ ((',' :: gap).intercalate
        (items.map fun a => fieldText (name a) (text a)) ++ (closing ++ '\x7d' :: rest))) =
      some (items.map fun a => (some (name a), value a), rest) := by
  induction items generalizing fuel blanks with
  | nil => exact absurd rfl hne
  | cons a items ih =>
    obtain ⟨fuel, rfl⟩ : ∃ k, fuel = k + 1 := ⟨fuel - 1, by omega⟩
    obtain ⟨ha, hrest⟩ := List.forall_mem_cons.1 hitems
    have hlength : (text a).length ≤ (fieldText (name a) (text a)).length := by
      simp only [fieldText, List.length_append, List.length_cons]
      omega
    cases items with
    | nil =>
      rw [List.map_singleton, List.intercalate_singleton] at hfuel ⊢
      have hends : EndsValue (closing ++ '\x7d' :: rest) := by
        obtain ⟨behind, rfl⟩ := hline
        exact endsValue_cons (.inr rfl)
      rw [readMembers?_fieldText ha fuel blanks _ hblanks hends (by omega),
        skipBlanks_cons hclosing rfl]
      rfl
    | cons b items =>
      rw [List.map_cons, List.map_cons, List.intercalate_cons_cons] at hfuel ⊢
      rw [← List.map_cons (f := fun a => fieldText (name a) (text a))] at hfuel ⊢
      simp only [List.length_append, List.length_cons] at hfuel
      simp only [List.append_assoc, List.cons_append]
      have hbehind := ih hrest (List.cons_ne_nil b items) fuel gap hgap (by omega)
      rw [readMembers?_fieldText ha fuel blanks _ hblanks
        (endsValue_cons (.inl rfl)) (by omega)]
      show (readMembers? fuel (gap ++ _) >>= _) = _
      rw [hbehind]
      rfl

end Rows

/-! ## Documents -/

/-- The end of a line and the indentation of the next one. -/
def gap (depth : Nat) : List Char := '\n' :: (indentation depth).toList

theorem isBlank_of_mem_gap (depth : Nat) : ∀ b ∈ gap depth, isBlank b = true := by
  intro b hb
  rcases List.mem_cons.1 hb with rfl | hb
  · rfl
  · rw [indentation, String.toList_ofList] at hb
    rw [List.eq_of_mem_replicate hb]
    rfl

theorem intercalate_map_append {separator front : List Char} {rows : List (List Char)}
    (h : rows ≠ []) : separator.intercalate (rows.map (front ++ ·)) =
      front ++ (separator ++ front).intercalate rows := by
  induction rows with
  | nil => exact absurd rfl h
  | cons row rows ih =>
    cases rows with
    | nil => rw [List.map_singleton, List.intercalate_singleton, List.intercalate_singleton]
    | cons next rows =>
      rw [List.map_cons, List.map_cons, List.intercalate_cons_cons, ← List.map_cons,
        ih (List.cons_ne_nil next rows), List.intercalate_cons_cons]
      simp only [List.append_assoc]

/-- Rows between brackets stand behind gaps, and commas between them. -/
theorem toList_jsonBlock (depth : Nat) (left right : String) {rows : List String}
    (h : rows ≠ []) : (Document.jsonBlock depth left right rows).toList =
      left.toList ++ (gap (depth + 1) ++ ((',' :: gap (depth + 1)).intercalate
        (rows.map String.toList) ++ (gap depth ++ right.toList))) := by
  cases rows with
  | nil => exact absurd rfl h
  | cons row rows =>
    have hrows : ((row :: rows).map (indentation (depth + 1) ++ ·)).map String.toList =
        ((row :: rows).map String.toList).map ((indentation (depth + 1)).toList ++ ·) := by
      rw [List.map_map, List.map_map]
      exact List.map_congr_left fun _ _ => String.toList_append
    unfold Document.jsonBlock
    simp only [String.toList_append, String.toList_intercalate]
    rw [hrows, intercalate_map_append (by simp)]
    simp [gap]

/-- Rows start with what the first of them starts with. -/
theorem opens_intercalate {separator : List Char} {rows : List (List Char)}
    (h : ∀ row ∈ rows, Opens row) (hne : rows ≠ []) : Opens (separator.intercalate rows) := by
  cases rows with
  | nil => exact absurd rfl hne
  | cons row rows =>
    have hrow := h row List.mem_cons_self
    cases rows with
    | nil => rwa [List.intercalate_singleton]
    | cons next rows =>
      rw [List.intercalate_cons_cons, List.append_assoc]
      exact hrow.append _

section Blocks

variable {α : Type} {text : α → List Char} {value : α → Json} {items : List α}
  (hitems : ∀ a ∈ items, Reads (text a) (value a)) (hne : items ≠ []) (depth : Nat)

include hitems hne

theorem reads_array : Reads ('[' :: (gap (depth + 1) ++
    ((',' :: gap (depth + 1)).intercalate (items.map text) ++ (gap depth ++ [']']))))
    (.array (items.map value)) := by
  refine ⟨⟨_, _, rfl, rfl, by decide, by decide⟩, ?_⟩
  intro fuel blanks rest hblanks hrest hfuel
  simp only [List.length_cons, List.length_append] at hfuel
  obtain ⟨fuel, rfl⟩ : ∃ k, fuel = k + 1 := ⟨fuel - 1, by omega⟩
  have hopens : Opens ((',' :: gap (depth + 1)).intercalate (items.map text)) := by
    apply opens_intercalate
    · intro row hrow
      obtain ⟨a, ha, rfl⟩ := List.mem_map.1 hrow
      exact (hitems a ha).opens
    · simpa using hne
  have hrows := readItems?_rows (isBlank_of_mem_gap (depth + 1)) (isBlank_of_mem_gap depth)
    ⟨_, rfl⟩ items hitems hne fuel [] rest (List.forall_mem_nil _) (by omega)
  obtain ⟨c, behind, hcons, hblank, hclose, -⟩ := hopens
  rw [List.nil_append, hcons, List.cons_append] at hrows
  simp only [List.cons_append, List.append_assoc, List.nil_append]
  rw [readValue?, skipBlanks_cons hblanks rfl, hcons, List.cons_append]
  simp only [skipBlanks_cons (isBlank_of_mem_gap (depth + 1)) hblank]
  split
  · next heq => exact absurd (List.cons.inj heq).1 hclose
  · rw [hrows]
    rfl

theorem reads_object (name : α → String) : Reads ('\x7b' :: (gap (depth + 1) ++
    ((',' :: gap (depth + 1)).intercalate (items.map fun a => fieldText (name a) (text a)) ++
      (gap depth ++ ['\x7d'])))) (.object (items.map fun a => (name a, value a))) := by
  refine ⟨⟨_, _, rfl, rfl, by decide, by decide⟩, ?_⟩
  intro fuel blanks rest hblanks hrest hfuel
  simp only [List.length_cons, List.length_append] at hfuel
  obtain ⟨fuel, rfl⟩ : ∃ k, fuel = k + 1 := ⟨fuel - 1, by omega⟩
  have hrows := readMembers?_rows (isBlank_of_mem_gap (depth + 1)) (isBlank_of_mem_gap depth)
    ⟨_, rfl⟩ name items hitems hne fuel [] rest (List.forall_mem_nil _) (by omega)
  have hmembers : ofMembers (items.map fun a => (some (name a), value a)) =
      .object (items.map fun a => (name a, value a)) := by
    have hkeys : (items.map fun a => (some (name a), value a)).mapM
        (fun member => member.1.map (·, member.2)) = some (items.map fun a => (name a, value a)) :=
      mapM_map_of_forall fun _ _ => rfl
    unfold ofMembers
    rw [hkeys]
  have hopens : Opens ((',' :: gap (depth + 1)).intercalate
      (items.map fun a => fieldText (name a) (text a))) := by
    apply opens_intercalate
    · intro row hrow
      obtain ⟨a, ha, rfl⟩ := List.mem_map.1 hrow
      exact ⟨_, _, by rw [fieldText, toList_quote]; rfl, rfl, by decide, by decide⟩
    · simpa using hne
  obtain ⟨c, behind, hcons, hblank, -, hclose⟩ := hopens
  rw [List.nil_append, hcons, List.cons_append] at hrows
  simp only [List.cons_append, List.append_assoc, List.nil_append]
  rw [readValue?, skipBlanks_cons hblanks rfl, hcons, List.cons_append]
  simp only [skipBlanks_cons (isBlank_of_mem_gap (depth + 1)) hblank]
  split
  · next heq => exact absurd (List.cons.inj heq).1 hclose
  · rw [hrows]
    show some (ofMembers _, rest) = _
    rw [hmembers]

end Blocks

theorem jsonItems_eq_map (depth : Nat) (items : List Document) :
    Document.jsonItems depth items = items.map (Document.jsonAt depth) := by
  induction items with
  | nil => rfl
  | cons item items ih => rw [Document.jsonItems, ih, List.map_cons]

theorem jsonFields_eq_map (depth : Nat) (fields : List (String × Document)) :
    Document.jsonFields depth fields =
      fields.map fun field => quote field.1 ++ ": " ++ field.2.jsonAt depth := by
  induction fields with
  | nil => rfl
  | cons field fields ih => rw [Document.jsonFields, ih, List.map_cons]

theorem reads_emptyArray : Reads "[]".toList (.array []) := by
  refine ⟨⟨_, _, rfl, rfl, by decide, by decide⟩, ?_⟩
  intro fuel blanks rest hblanks hrest hfuel
  obtain ⟨fuel, rfl⟩ : ∃ k, fuel = k + 1 := ⟨fuel - 1, by simp at hfuel; omega⟩
  show readValue? (fuel + 1) (blanks ++ '[' :: ']' :: rest) = _
  rw [readValue?, skipBlanks_cons hblanks rfl]
  rfl

theorem reads_emptyObject : Reads "\x7b\x7d".toList (.object []) := by
  refine ⟨⟨_, _, rfl, rfl, by decide, by decide⟩, ?_⟩
  intro fuel blanks rest hblanks hrest hfuel
  obtain ⟨fuel, rfl⟩ : ∃ k, fuel = k + 1 := ⟨fuel - 1, by simp at hfuel; omega⟩
  show readValue? (fuel + 1) (blanks ++ '\x7b' :: '\x7d' :: rest) = _
  rw [readValue?, skipBlanks_cons hblanks rfl]
  rfl

/-- A document at any depth is read wherever a value may end behind it. -/
theorem reads_jsonAt (document : Document) :
    ∀ depth, Reads (document.jsonAt depth).toList (ofDocument document) := by
  induction document using Document.induction with
  | number n =>
    intro depth
    have hnumber := reads_number n.toNat
    rwa [← Nat.toList_repr] at hnumber
  | text s => exact fun depth => reads_string s
  | list items ih =>
    intro depth
    cases items with
    | nil => exact reads_emptyArray
    | cons item items =>
      rw [ofDocument_list, Document.jsonAt, jsonItems_eq_map,
        toList_jsonBlock depth _ _ (mt List.map_eq_nil_iff.1 (List.cons_ne_nil item items)),
        List.map_map]
      exact reads_array (fun a ha => ih a ha (depth + 1)) (List.cons_ne_nil item items) depth
  | record fields ih =>
    intro depth
    cases fields with
    | nil => exact reads_emptyObject
    | cons field fields =>
      have htext : String.toList ∘ (fun field : String × Document =>
          quote field.1 ++ ": " ++ field.2.jsonAt (depth + 1)) =
            fun field => fieldText field.1 (field.2.jsonAt (depth + 1)).toList := by
        funext field
        simp [fieldText]
      rw [ofDocument_record, Document.jsonAt, jsonFields_eq_map,
        toList_jsonBlock depth _ _ (mt List.map_eq_nil_iff.1 (List.cons_ne_nil field fields)),
        List.map_map, htext]
      exact reads_object (fun a ha => ih a ha (depth + 1)) (List.cons_ne_nil field fields) depth
        Prod.fst

/-- **JSON loses nothing**: every document is read back from its JSON. -/
theorem ofText?_json (document : Document) :
    ofText? document.json = some (ofDocument document) := by
  have hread := (reads_jsonAt document 0).reads
    (2 * ((document.jsonAt 0).toList ++ ['\n']).length + 2) [] ['\n'] (List.forall_mem_nil _)
    (endsValue_cons (.inr rfl)) (by rw [List.length_append]; omega)
  have htext : document.json.toList = (document.jsonAt 0).toList ++ ['\n'] := String.toList_append
  unfold ofText?
  rw [List.nil_append] at hread
  simp only [htext, hread]
  rfl

end Tableau.Json
