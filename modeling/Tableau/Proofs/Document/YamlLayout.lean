import Tableau.Proofs.Document.Faithful
import Tableau.Proofs.Token.Scan
import Tableau.Yaml.Printer

/-!
# The layout of nodes

Documents whose texts are words are written in a small part of YAML. An `Atom` stands on the rest of
a line: a word, a word in quotes, or the brackets of an empty collection. The items of a sequence
stand below one another behind dashes, and the entries of a mapping behind their keys. `Layout` says
how a node looks that starts at a given column, and `layout_yaml` that documents are written
this way.
-/

namespace Tableau.Yaml

/-- One or more of the characters that names and numbers have. -/
structure IsWord (text : List Char) : Prop where
  ne_nil : text ≠ []
  forall_mem : ∀ c ∈ text, isNameCharacter c = true

theorem isWord_of_all {text : List Char}
    (h : (!text.isEmpty && text.all isNameCharacter) = true) : IsWord text := by
  obtain ⟨hne, hall⟩ := Bool.and_eq_true_iff.1 h
  exact ⟨by simpa using hne, List.all_eq_true.1 hall⟩

/-- A key of a mapping. -/
def key (word : List Char) : Yaml := .scalar none true (String.ofList word)

/-- A node that stands on the rest of a line. -/
inductive Atom : Yaml → List Char → Prop
  | plain {word : List Char} : IsWord word → Atom (.scalar none true (String.ofList word)) word
  | quoted {word : List Char} : IsWord word →
      Atom (.scalar none false (String.ofList word)) ('\x27' :: (word ++ ['\x27']))
  | sequence : Atom (.sequence none []) ['[', ']']
  | mapping : Atom (.mapping none []) ['\x7b', '\x7d']

mutual

/-- A node that starts at a column, up to the end of its last line. -/
inductive Layout : Nat → Yaml → List Char → Prop
  | atom {column : Nat} {node : Yaml} {text : List Char} : Atom node text → Layout column node text
  | sequence {column : Nat} {items : List Yaml} {text : List Char} :
      Items column items text → Layout column (.sequence none items) text
  | mapping {column : Nat} {entries : List (Yaml × Yaml)} {text : List Char} :
      Entries column entries text → Layout column (.mapping none entries) text

/-- The items of a sequence, each behind a dash at the column. -/
inductive Items : Nat → List Yaml → List Char → Prop
  | last {column : Nat} {node : Yaml} {text : List Char} :
      Layout (column + 2) node text → Items column [node] ('-' :: ' ' :: text)
  | next {column : Nat} {node : Yaml} {nodes : List Yaml} {text below : List Char} :
      Layout (column + 2) node text → Items column nodes below →
      Items column (node :: nodes)
        ('-' :: ' ' :: (text ++ '\n' :: (Scalar.indentation column ++ below)))

/-- The entries of a mapping, each with its key at the column. -/
inductive Entries : Nat → List (Yaml × Yaml) → List Char → Prop
  | last {column : Nat} {word : List Char} {node : Yaml} {text : List Char} :
      IsWord word → Behind column node text →
      Entries column [(key word, node)] (word ++ ':' :: text)
  | next {column : Nat} {word : List Char} {node : Yaml} {entries : List (Yaml × Yaml)}
      {text below : List Char} :
      IsWord word → Behind column node text → Entries column entries below →
      Entries column ((key word, node) :: entries)
        (word ++ ':' :: (text ++ '\n' :: (Scalar.indentation column ++ below)))

/-- What stands behind the colon of a key at the column: an atom on the same line, or a collection
on the lines below. -/
inductive Behind : Nat → Yaml → List Char → Prop
  | atom {column : Nat} {node : Yaml} {text : List Char} :
      Atom node text → Behind column node (' ' :: text)
  | sequence {column : Nat} {items : List Yaml} {text : List Char} :
      Items column items text →
      Behind column (.sequence none items) ('\n' :: (Scalar.indentation column ++ text))
  | mapping {column : Nat} {entries : List (Yaml × Yaml)} {text : List Char} :
      Entries (column + 2) entries text →
      Behind column (.mapping none entries) ('\n' :: (Scalar.indentation (column + 2) ++ text))

end

/-! ## Documents -/

/-- The node that a document is written as. A text is quoted if it would read as something else. -/
def ofDocument : Document → Yaml :=
  Document.fold (fun n => .scalar none true n.toNat.repr)
    (fun s => .scalar none (Scalar.style s = .plain) s) (.sequence none)
    (fun fields => .mapping none (fields.map fun field => (.scalar none true field.1, field.2)))

theorem ofDocument_list (items : List Document) :
    ofDocument (.list items) = .sequence none (items.map ofDocument) :=
  Document.fold_list ..

theorem ofDocument_record (fields : List (String × Document)) :
    ofDocument (.record fields) =
      .mapping none (fields.map fun field => (.scalar none true field.1, ofDocument field.2)) := by
  unfold ofDocument
  rw [Document.fold_record, List.map_map]
  rfl

theorem dropSign_of_isDigit {c : Char} {text : List Char} (h : c.isDigit = true) :
    Plain.dropSign (c :: text) = c :: text := by
  unfold Plain.dropSign
  split
  · next heq => rw [(List.cons.inj heq).1] at h; cases h
  · next heq => rw [(List.cons.inj heq).1] at h; cases h
  · rfl

theorem hasLeadingZero_toDigits (n : Nat) :
    Plain.hasLeadingZero (Nat.toDigits 10 n) = false := by
  obtain ⟨c, digits, hcons, hc⟩ := Numeral.exists_toDigits_eq_cons n
  unfold Plain.hasLeadingZero
  rw [hcons, dropSign_of_isDigit hc]
  split
  · next heq =>
    -- only the numeral of zero starts with a zero, and that is one digit long
    obtain ⟨rfl, rfl⟩ := List.cons.inj heq
    by_cases hn : n = 0
    · subst hn
      cases hcons
    · refine absurd ?_ (Numeral.head?_toDigits_ne_zero hn)
      rw [hcons, List.head?_cons]
  · rfl

theorem magnitude?_toDigits (n : Nat) : Plain.magnitude? (Nat.toDigits 10 n) = some n := by
  have hdigits : ∀ c ∈ Nat.toDigits 10 n, c.isDigit = true := fun _ =>
    Numeral.isDigit_of_mem_toDigits
  have hmark : ∀ c, c.isDigit = false → ∀ first rest, Nat.toDigits 10 n ≠ first :: c :: rest := by
    intro c hc first rest heq
    have hdigit := hdigits c (heq ▸ List.mem_cons_of_mem _ List.mem_cons_self)
    rw [hc] at hdigit
    cases hdigit
  unfold Plain.magnitude?
  split
  · next heq => exact absurd heq (hmark 'x' rfl _ _)
  · next heq => exact absurd heq (hmark 'o' rfl _ _)
  · next heq => exact absurd heq (hmark 'b' rfl _ _)
  · rw [Numeral.readRadix?_of_isNumeral (Numeral.isNumeral_toDigits n), Numeral.value_toDigits]

/-- A numeral reads as its number. -/
theorem natural?_repr (n : Nat) : Plain.natural? n.repr = some n := by
  unfold Plain.natural?
  rw [Nat.toList_repr, hasLeadingZero_toDigits,
    Numeral.dropPlus_of_isNumeral (Numeral.isNumeral_toDigits n), magnitude?_toDigits]
  rfl

theorem faithful_ofDocument : Document.Faithful ofDocument where
  number n := by
    show (Plain.natural? n.toNat.repr).bind Numeral.word32? = some n
    rw [natural?_repr, Option.bind_some, Numeral.word32?_toNat]
  text _ := rfl
  word _ := rfl
  items items := congrArg items? (ofDocument_list items)
  fields names items h hlength := by
    have hentries : ((names.zip items).map fun field =>
        ((.scalar none true field.1 : Yaml), ofDocument field.2)).mapM
          (fun entry => entry.1.text?.map (·, entry.2)) =
        some ((names.zip items).map fun field => (field.1, ofDocument field.2)) :=
      mapM_map_of_forall fun _ _ => rfl
    show fields? names (ofDocument _) = _
    rw [ofDocument_record, fields?, hentries]
    exact selectFields_zip ofDocument h hlength

/-! ## Words -/

section Words

variable {c : Char} {word : List Char}

theorem not_mem_of_isNameCharacter {marks : List Char} (h : isNameCharacter c = true)
    (hmarks : marks.any isNameCharacter = false) : c ∉ marks := by
  intro hmem
  exact List.any_eq_false.1 hmarks c hmem h

theorem ne_of_isNameCharacter {d : Char} (h : isNameCharacter c = true)
    (hd : isNameCharacter d = false) : c ≠ d := by
  rintro rfl
  rw [h] at hd
  cases hd

/-- The characters of words lie between the digit zero and the small letter z. -/
theorem range_of_isNameCharacter (h : isNameCharacter c = true) :
    0x30 ≤ c.toNat ∧ c.toNat ≤ 0x7a := by
  have hA : ('A' : Char).val.toNat = 0x41 := rfl
  have hZ : ('Z' : Char).val.toNat = 0x5a := rfl
  have ha : ('a' : Char).val.toNat = 0x61 := rfl
  have hz : ('z' : Char).val.toNat = 0x7a := rfl
  have hzero : ('0' : Char).val.toNat = 0x30 := rfl
  have hnine : ('9' : Char).val.toNat = 0x39 := rfl
  unfold isNameCharacter Char.isAlphanum Char.isAlpha Char.isUpper Char.isLower Char.isDigit at h
  simp only [Bool.or_eq_true, Bool.and_eq_true, decide_eq_true_eq, ge_iff_le,
    UInt32.le_iff_toNat_le] at h
  change 0x30 ≤ c.val.toNat ∧ c.val.toNat ≤ 0x7a
  rcases h with ((h | h) | h) | rfl
  · omega
  · omega
  · omega
  · decide

theorem isBreak_of_isNameCharacter (h : isNameCharacter c = true) : isBreak c = false :=
  decide_eq_false (not_mem_of_isNameCharacter h rfl)

theorem isPrintable_of_isNameCharacter (h : isNameCharacter c = true) :
    Scalar.isPrintable c = true := by
  obtain ⟨hlow, hhigh⟩ := range_of_isNameCharacter h
  simp only [Scalar.isPrintable, Bool.or_eq_true, Bool.and_eq_true, decide_eq_true_eq]
  omega

theorem hasPair_eq_false {first second : Char → Bool} {text : List Char}
    (h : ∀ d ∈ text, first d = false) : Scalar.hasPair first second text = false := by
  induction text with
  | nil => rfl
  | cons a text ih =>
    obtain ⟨ha, htext⟩ := List.forall_mem_cons.1 h
    cases text with
    | nil => rfl
    | cons b text => rw [Scalar.hasPair, ha, Bool.false_and, Bool.false_or, ih htext]

variable (h : IsWord word)

include h

theorem IsWord.singleFits : Scalar.singleFits word = true := by
  have hprintable : word.all Scalar.isPrintable = true :=
    List.all_eq_true.2 fun c hc => isPrintable_of_isNameCharacter (h.forall_mem c hc)
  have hspace : Scalar.hasSpaceBreak word = false := hasPair_eq_false fun c hc =>
    decide_eq_false (ne_of_isNameCharacter (h.forall_mem c hc) rfl)
  have hbreak : Scalar.hasBreakSpace word = false := hasPair_eq_false fun c hc =>
    isBreak_of_isNameCharacter (h.forall_mem c hc)
  rw [Scalar.singleFits, Scalar.fitsUnescaped, hprintable, hspace, hbreak]
  rfl

theorem IsWord.not_isBreak : ∀ c ∈ word, isBreak c = false := fun c hc =>
  isBreak_of_isNameCharacter (h.forall_mem c hc)

omit h in
theorem indentLines_eq_self (indent : Nat) {text : List Char} (h : ∀ c ∈ text, isBreak c = false) :
    Scalar.indentLines indent false text = text := by
  induction text with
  | nil => rfl
  | cons c text ih =>
    obtain ⟨hc, htext⟩ := List.forall_mem_cons.1 h
    rw [Scalar.indentLines, hc, ih htext]
    rfl

omit h in
theorem flatMap_quote_eq_self {text : List Char} (h : ∀ c ∈ text, c ≠ '\x27') :
    text.flatMap (fun c => if c = '\x27' then [c, c] else [c]) = text := by
  induction text with
  | nil => rfl
  | cons c text ih =>
    obtain ⟨hc, htext⟩ := List.forall_mem_cons.1 h
    rw [List.flatMap_cons, if_neg hc, ih htext, List.singleton_append]

/-- In single quotes a word stands as it is. -/
theorem IsWord.singleQuoted (indent : Nat) :
    Scalar.singleQuoted indent word = '\x27' :: (word ++ ['\x27']) := by
  have hquote : ∀ c ∈ word, c ≠ '\x27' := fun c hc =>
    ne_of_isNameCharacter (h.forall_mem c hc) rfl
  have hlast : word.getLast?.any isBreak = false := by
    cases hlast : word.getLast? with
    | none => rfl
    | some c => exact h.not_isBreak c (List.mem_of_getLast? hlast)
  simp only [Scalar.singleQuoted, flatMap_quote_eq_self hquote, hlast,
    indentLines_eq_self indent h.not_isBreak, Bool.false_eq_true, if_false, List.append_nil,
    List.cons_append]

omit h in
/-- A word is written plain or in single quotes. -/
theorem IsWord.style {s : String} (h : IsWord s.toList) :
    Scalar.style s = .plain ∨ Scalar.style s = .singleQuoted := by
  have hline : s.toList.contains '\n' = false := by
    rw [List.contains_eq_mem]
    apply decide_eq_false
    intro hmem
    exact absurd (h.forall_mem _ hmem) (by decide)
  simp only [Scalar.style, hline, h.singleFits, Bool.false_eq_true, if_false, if_true]
  split
  · exact .inl rfl
  · exact .inr rfl

end Words

/-- What is written for a word. -/
theorem atom_render {s : String} (h : IsWord s.toList) (indent : Nat) :
    ∃ text, (Scalar.render indent s).toList = text ++ ['\n'] ∧
      Atom (ofDocument (.text s)) text := by
  rcases h.style with hstyle | hstyle
  · refine ⟨s.toList, ?_, ?_⟩
    · simp only [Scalar.render, hstyle, String.toList_ofList]
    · have hatom := Atom.plain h
      rw [String.ofList_toList] at hatom
      rwa [ofDocument, Document.fold, hstyle]
  · refine ⟨'\x27' :: (s.toList ++ ['\x27']), ?_, ?_⟩
    · simp only [Scalar.render, hstyle, String.toList_ofList, h.singleQuoted]
    · have hatom := Atom.quoted h
      rw [String.ofList_toList] at hatom
      rwa [ofDocument, Document.fold, hstyle]

theorem isWord_repr (n : Nat) : IsWord n.repr.toList := by
  rw [Nat.toList_repr]
  refine ⟨List.ne_nil_of_length_pos Nat.length_toDigits_pos, fun c hc => ?_⟩
  exact Token.isNameCharacter_of_isDigit (Numeral.isDigit_of_mem_toDigits hc)

/-! ## Rows -/

/-- A document whose layout is that of its node, behind a dash and behind a key. -/
structure Laid (document : Document) : Prop where
  item : ∀ indent, ∃ text, (document.yamlItem indent).toList = ' ' :: (text ++ ['\n']) ∧
    Layout (indent + 2) (ofDocument document) text
  field : ∀ indent, ∃ text, (document.yamlField indent).toList = text ++ ['\n'] ∧
    Behind indent (ofDocument document) text

/-- An atom is laid out, behind a dash and behind a key alike. -/
theorem laid_atom {document : Document}
    (h : ∀ indent, ∃ text, (document.yamlItem indent).toList = ' ' :: (text ++ ['\n']) ∧
      document.yamlField indent = document.yamlItem indent ∧ Atom (ofDocument document) text) :
    Laid document where
  item indent := by
    obtain ⟨text, htext, -, hatom⟩ := h indent
    exact ⟨text, htext, .atom hatom⟩
  field indent := by
    obtain ⟨text, htext, hsame, hatom⟩ := h indent
    exact ⟨' ' :: text, by rw [hsame, htext, List.cons_append], .atom hatom⟩

theorem toList_yamlBlock_singleton (indent : Nat) (row : String) :
    (Document.yamlBlock indent [row]).toList = row.toList :=
  congrArg String.toList String.intercalate_singleton

theorem toList_yamlBlock_cons_cons (indent : Nat) (row next : String) (rows : List String) :
    (Document.yamlBlock indent (row :: next :: rows)).toList =
      row.toList ++ (Scalar.indentation indent ++
        (Document.yamlBlock indent (next :: rows)).toList) := by
  unfold Document.yamlBlock
  rw [String.intercalate_cons_cons, String.toList_append, String.toList_append, List.append_assoc,
    Document.yamlIndentation, String.toList_ofList]

/-- The rows of a list are the items of a sequence. -/
theorem items_yamlBlock {items : List Document} (h : ∀ item ∈ items, Laid item) (hne : items ≠ [])
    (indent : Nat) :
    ∃ text, (Document.yamlBlock indent (Document.yamlItems indent items)).toList = text ++ ['\n'] ∧
      Items indent (items.map ofDocument) text := by
  induction items with
  | nil => exact absurd rfl hne
  | cons item items ih =>
    obtain ⟨hitem, hitems⟩ := List.forall_mem_cons.1 h
    obtain ⟨text, htext, hlayout⟩ := hitem.item indent
    have hrow : ("-" ++ Document.yamlItem indent item).toList =
        '-' :: ' ' :: (text ++ ['\n']) := by
      rw [String.toList_append, htext]
      rfl
    cases items with
    | nil =>
      refine ⟨'-' :: ' ' :: text, ?_, .last hlayout⟩
      rw [Document.yamlItems, Document.yamlItems, toList_yamlBlock_singleton, hrow]
      rfl
    | cons next items =>
      obtain ⟨below, hbelow, hrows⟩ := ih hitems (List.cons_ne_nil _ _)
      refine ⟨_, ?_, .next hlayout hrows⟩
      rw [Document.yamlItems, Document.yamlItems, toList_yamlBlock_cons_cons, ← Document.yamlItems,
        hbelow, hrow]
      simp only [List.cons_append, List.append_assoc, List.nil_append]

/-- The rows of a record are the entries of a mapping. -/
theorem entries_yamlBlock {fields : List (String × Document)}
    (hnames : ∀ field ∈ fields, IsWord field.1.toList) (h : ∀ field ∈ fields, Laid field.2)
    (hne : fields ≠ []) (indent : Nat) :
    ∃ text, (Document.yamlBlock indent (Document.yamlFields indent fields)).toList =
        text ++ ['\n'] ∧
      Entries indent (fields.map fun field => (.scalar none true field.1, ofDocument field.2))
        text := by
  induction fields with
  | nil => exact absurd rfl hne
  | cons field fields ih =>
    obtain ⟨hname, hothers⟩ := List.forall_mem_cons.1 hnames
    obtain ⟨hfield, hfields⟩ := List.forall_mem_cons.1 h
    obtain ⟨text, htext, hbehind⟩ := hfield.field indent
    obtain ⟨name, document⟩ := field
    have hrow : (name ++ ":" ++ Document.yamlField indent document).toList =
        name.toList ++ ':' :: (text ++ ['\n']) := by
      rw [String.toList_append, String.toList_append, htext, List.append_assoc]
      rfl
    have hkey : key name.toList = .scalar none true name := by
      rw [key, String.ofList_toList]
    cases fields with
    | nil =>
      refine ⟨name.toList ++ ':' :: text, ?_, ?_⟩
      · rw [Document.yamlFields, Document.yamlFields, toList_yamlBlock_singleton, hrow,
          List.append_assoc, List.cons_append]
      · rw [List.map_singleton, ← hkey]
        exact .last hname hbehind
    | cons next fields =>
      obtain ⟨below, hbelow, hrows⟩ := ih hothers hfields (List.cons_ne_nil _ _)
      rw [List.map_cons, ← hkey]
      refine ⟨_, ?_, .next hname hbehind hrows⟩
      rw [Document.yamlFields, Document.yamlFields, toList_yamlBlock_cons_cons,
        ← Document.yamlFields, hbelow, hrow]
      simp only [List.cons_append, List.append_assoc, List.nil_append]

/-- Every text and every field name is a word. -/
def Worded (document : Document) : Prop := document.AllTexts fun s => IsWord s.toList

/-- A document of words is laid out behind a dash and behind a key. -/
theorem Worded.laid {document : Document} (h : Worded document) : Laid document := by
  induction h with
  | number n =>
    apply laid_atom
    intro indent
    have hatom := Atom.plain (isWord_repr n.toNat)
    rw [String.ofList_toList] at hatom
    exact ⟨n.toNat.repr.toList, by simp [Document.yamlItem], rfl, hatom⟩
  | text hs =>
    apply laid_atom
    intro indent
    obtain ⟨text, htext, hatom⟩ := atom_render hs (indent + 2)
    exact ⟨text, by simp [Document.yamlItem, htext], rfl, hatom⟩
  | @list items hitems ih =>
    cases items with
    | nil =>
      exact laid_atom fun indent =>
        ⟨['[', ']'], by rw [Document.yamlItem]; rfl, rfl, .sequence⟩
    | cons item items =>
      refine ⟨fun indent => ?_, fun indent => ?_⟩
      · obtain ⟨text, htext, hrows⟩ := items_yamlBlock ih (List.cons_ne_nil _ _) (indent + 2)
        refine ⟨text, ?_, ?_⟩
        · rw [Document.yamlItem, String.toList_append, htext]
          rfl
        · rw [ofDocument_list]
          exact .sequence hrows
      · obtain ⟨text, htext, hrows⟩ := items_yamlBlock ih (List.cons_ne_nil _ _) indent
        refine ⟨'\n' :: (Scalar.indentation indent ++ text), ?_, ?_⟩
        · rw [Document.yamlField, String.toList_append, String.toList_append, htext,
            Document.yamlIndentation, String.toList_ofList]
          simp
        · rw [ofDocument_list]
          exact .sequence hrows
  | @record fields hnames hfields ih =>
    cases fields with
    | nil =>
      exact laid_atom fun indent =>
        ⟨['\x7b', '\x7d'], by rw [Document.yamlItem]; rfl, rfl, .mapping⟩
    | cons field fields =>
      refine ⟨fun indent => ?_, fun indent => ?_⟩
      · obtain ⟨text, htext, hrows⟩ :=
          entries_yamlBlock hnames ih (List.cons_ne_nil _ _) (indent + 2)
        refine ⟨text, ?_, ?_⟩
        · rw [Document.yamlItem, String.toList_append, htext]
          rfl
        · rw [ofDocument_record]
          exact .mapping hrows
      · obtain ⟨text, htext, hrows⟩ :=
          entries_yamlBlock hnames ih (List.cons_ne_nil _ _) (indent + 2)
        refine ⟨'\n' :: (Scalar.indentation (indent + 2) ++ text), ?_, ?_⟩
        · rw [Document.yamlField, String.toList_append, String.toList_append, htext,
            Document.yamlIndentation, String.toList_ofList]
          simp
        · rw [ofDocument_record]
          exact .mapping hrows

/-- **How documents of words are written**: as their nodes, laid out from the first column on. -/
theorem layout_yaml {document : Document} (h : Worded document) :
    ∃ text, document.yaml.toList = text ++ ['\n'] ∧ Layout 0 (ofDocument document) text := by
  cases h with
  | number n =>
    have hatom := Atom.plain (isWord_repr n.toNat)
    rw [String.ofList_toList] at hatom
    exact ⟨n.toNat.repr.toList, String.toList_append, .atom hatom⟩
  | text hs =>
    obtain ⟨text, htext, hatom⟩ := atom_render hs 2
    exact ⟨text, htext, .atom hatom⟩
  | @list items hitems =>
    cases items with
    | nil => exact ⟨['[', ']'], rfl, .atom .sequence⟩
    | cons item items =>
      obtain ⟨text, htext, hrows⟩ :=
        items_yamlBlock (fun item hitem => Worded.laid (hitems item hitem)) (List.cons_ne_nil _ _) 0
      rw [ofDocument_list]
      exact ⟨text, htext, .sequence hrows⟩
  | @record fields hnames hfields =>
    cases fields with
    | nil => exact ⟨['\x7b', '\x7d'], by rw [Document.yaml]; rfl, .atom .mapping⟩
    | cons field fields =>
      obtain ⟨text, htext, hrows⟩ := entries_yamlBlock hnames
        (fun field hfield => Worded.laid (hfields field hfield)) (List.cons_ne_nil _ _) 0
      rw [ofDocument_record]
      exact ⟨text, htext, .mapping hrows⟩

end Tableau.Yaml
