import Tableau.Proofs.Document.YamlLayout
import Tableau.Yaml.Reader

/-!
# Reading what is laid out

A node is read from its layout wherever the text behind it cannot belong to it: there the line ends,
and the content below, if there is any, stands too far to the left (`Layout.read`). Which place is
too far to the left depends on what is read, so the condition comes in three forms. `Outside` is
that of a node and of the entries of a mapping; `OutsideItems` is that of the items of a sequence,
which end at their own column too where no dash stands.

The readers call one another on fuel. One character needs at most five of it, and the induction is on
the layout, whose parts are shorter by the dashes, colons and breaks between them.
-/

namespace Tableau.Yaml

/-! ## Separation -/

/-- A character that tokens start with: no blank, no break and no comment mark. -/
structure IsContent (c : Char) : Prop where
  not_break : isBreak c = false
  ne_space : c ≠ ' '
  ne_tab : c ≠ '\t'
  ne_comment : c ≠ '#'

/-- The text starts with content. -/
def Opens (text : List Char) : Prop := ∃ c rest, text = c :: rest ∧ IsContent c

/-- What stands behind the end of a line: nothing, or a line with content at a column. -/
inductive Below : List Char → Nat → List Char → Prop
  | nothing : Below [] 0 []
  | line {column : Nat} {content : List Char} :
      Opens content → Below (Scalar.indentation column ++ content) column content

section Separation

variable {tabs tabsBelow crossed : Bool} {column : Nat}

theorem skipSeparation_content {text : List Char} (h : Opens text) :
    skipSeparation tabs tabsBelow false crossed column text = (crossed, column, text) := by
  obtain ⟨c, rest, rfl, hc⟩ := h
  rw [skipSeparation]
  simp [hc.not_break, hc.ne_space, hc.ne_tab, hc.ne_comment]

theorem skipSeparation_indentation (count : Nat) (text : List Char) :
    skipSeparation tabs tabsBelow false crossed column (Scalar.indentation count ++ text) =
      skipSeparation tabs tabsBelow false crossed (column + count) text := by
  induction count generalizing column with
  | zero => rfl
  | succ count ih =>
    have hspace : skipSeparation tabs tabsBelow false crossed column
        (' ' :: (Scalar.indentation count ++ text)) =
          skipSeparation tabs tabsBelow false crossed (column + 1)
            (Scalar.indentation count ++ text) := rfl
    rw [Scalar.indentation, List.replicate_succ, List.cons_append]
    rw [Scalar.indentation] at hspace ih
    rw [hspace, ih]
    congr 1
    omega

/-- At the end of a line the move goes to the content below. -/
theorem skipSeparation_below {rest content : List Char} {below : Nat}
    (h : Below rest below content) :
    skipSeparation tabs tabsBelow false crossed column ('\n' :: rest) = (true, below, content) := by
  have hbreak : skipSeparation tabs tabsBelow false crossed column ('\n' :: rest) =
      skipSeparation tabsBelow tabsBelow false true 0 rest := rfl
  rw [hbreak]
  cases h with
  | nothing => rfl
  | line hopens => rw [skipSeparation_indentation, skipSeparation_content hopens, Nat.zero_add]

end Separation

/-! ## Cursors -/

section Cursors

variable {anchors : List (String × Yaml)} {rest content : List Char} {below : Nat}

theorem toContent_below (h : Below rest below content) (column : Nat) (tabs tabsBelow : Bool) :
    (Cursor.mk column ('\n' :: rest) anchors).toContent tabs tabsBelow =
      (true, ⟨below, content, anchors⟩) := by
  unfold Cursor.toContent
  rw [skipSeparation_below h]

theorem toBlockContent_below (h : Below rest below content) (column : Nat) :
    (Cursor.mk column ('\n' :: rest) anchors).toBlockContent = ⟨below, content, anchors⟩ :=
  congrArg Prod.snd (toContent_below h column true false)

theorem atLineEnd?_below (h : Below rest below content) (column : Nat) :
    (Cursor.mk column ('\n' :: rest) anchors).atLineEnd? =
      some ⟨column, '\n' :: rest, anchors⟩ := by
  unfold Cursor.atLineEnd?
  rw [toContent_below h]
  rfl

/-- Behind a space the move goes to the content on the same line. -/
theorem toContent_space {text : List Char} (h : Opens text) (column : Nat) (tabs tabsBelow : Bool) :
    (Cursor.mk column (' ' :: text) anchors).toContent tabs tabsBelow =
      (false, ⟨column + 1, text, anchors⟩) := by
  have hspace : skipSeparation tabs tabsBelow false false column (' ' :: text) =
      skipSeparation tabs tabsBelow false false (column + 1) text := rfl
  unfold Cursor.toContent
  rw [hspace, skipSeparation_content h]

theorem toContent_opens {text : List Char} (h : Opens text) (column : Nat) (tabs tabsBelow : Bool) :
    (Cursor.mk column text anchors).toContent tabs tabsBelow =
      (false, ⟨column, text, anchors⟩) := by
  unfold Cursor.toContent
  rw [skipSeparation_content h]

end Cursors

/-! ## Words -/

section Words

variable {c : Char} {word : List Char}

theorem isBlank_of_isNameCharacter (h : isNameCharacter c = true) : isBlank c = false := by
  unfold isBlank
  rw [decide_eq_false (ne_of_isNameCharacter h rfl), decide_eq_false (ne_of_isNameCharacter h rfl)]
  rfl

theorem isContent_of_isNameCharacter (h : isNameCharacter c = true) : IsContent c where
  not_break := isBreak_of_isNameCharacter h
  ne_space := ne_of_isNameCharacter h rfl
  ne_tab := ne_of_isNameCharacter h rfl
  ne_comment := ne_of_isNameCharacter h rfl

/-- A text that starts like a word is none that starts with a mark. -/
theorem word_ne_mark {mark : Char} (h : isNameCharacter c = true)
    (hmark : isNameCharacter mark = false) {letters rest : List Char} :
    c :: letters ≠ mark :: rest := fun heq =>
  ne_of_isNameCharacter h hmark (List.cons.inj heq).1

theorem startsPlain_word (h : isNameCharacter c = true) (rest : List Char) :
    startsPlain false (c :: rest) = true := by
  have hspace : atSpace [c] = false := by
    rw [atSpace, isBlank_of_isNameCharacter h, isBreak_of_isNameCharacter h]
    rfl
  have hmarks : c ∉ [',', '[', ']', '\x7b', '\x7d', '#', '&', '*', '!', '|', '>', '\x27', '\x22',
      '%', '@', '\x60'] := not_mem_of_isNameCharacter h rfl
  rw [startsPlain, if_neg (ne_of_isNameCharacter h rfl), if_neg, hspace, decide_eq_true hmarks]
  · rfl
  · simp [ne_of_isNameCharacter h (d := '?') rfl, ne_of_isNameCharacter h (d := ':') rfl]

/-- A plain scalar goes on over the characters of a word. -/
theorem plainPart_word (h : ∀ d ∈ word, isNameCharacter d = true) (rest : List Char) :
    plainPart false false (word ++ rest) = word ++ plainPart false false rest := by
  induction word with
  | nil => rfl
  | cons c word ih =>
    obtain ⟨hc, hword⟩ := List.forall_mem_cons.1 h
    rw [List.cons_append, plainPart, isBreak_of_isNameCharacter hc, isBlank_of_isNameCharacter hc,
      ih hword]
    simp [ne_of_isNameCharacter hc (d := ':') rfl, ne_of_isNameCharacter hc (d := '#') rfl]

theorem trimEnd_word (h : ∀ d ∈ word, isNameCharacter d = true) : trimEnd word = word := by
  have hblank : word.reverse.dropWhile isBlank = word.reverse := by
    cases hreverse : word.reverse with
    | nil => rfl
    | cons c front =>
      have hc : c ∈ word := List.mem_reverse.1 (hreverse ▸ List.mem_cons_self)
      rw [List.dropWhile_cons_of_neg (by simp [isBlank_of_isNameCharacter (h c hc)])]
  rw [trimEnd, hblank, List.reverse_reverse]

end Words

/-! ## Scalars -/

section Scalars

variable {anchors : List (String × Yaml)} {rest content word : List Char} {floor below : Nat}

theorem skipBreaks_content {breaks text : List Char} (h : Opens text) (column : Nat) :
    skipBreaks floor breaks column text = some (breaks, column, text) := by
  obtain ⟨c, rest, rfl, hc⟩ := h
  rw [skipBreaks]
  simp [hc.not_break, hc.ne_space, hc.ne_tab, isBlank]

theorem skipBreaks_indentation {breaks : List Char} (count column : Nat) (text : List Char) :
    skipBreaks floor breaks column (Scalar.indentation count ++ text) =
      skipBreaks floor breaks (column + count) text := by
  induction count generalizing column with
  | zero => rfl
  | succ count ih =>
    have hspace : skipBreaks floor breaks column (' ' :: (Scalar.indentation count ++ text)) =
        skipBreaks floor breaks (column + 1) (Scalar.indentation count ++ text) := rfl
    rw [Scalar.indentation, List.replicate_succ, List.cons_append]
    rw [Scalar.indentation] at hspace ih
    rw [hspace, ih]
    congr 1
    omega

theorem skipBreaks_below (h : Below rest below content) (column : Nat) :
    skipBreaks floor [] column ('\n' :: rest) = some (['\n'], below, content) := by
  have hbreak : skipBreaks floor [] column ('\n' :: rest) = skipBreaks floor ['\n'] 0 rest := rfl
  rw [hbreak]
  cases h with
  | nothing => rfl
  | line hopens => rw [skipBreaks_indentation, skipBreaks_content hopens, Nat.zero_add]

/-- The line below does not belong to a node to the right of `floor`. -/
def Outside (floor below : Nat) (content : List Char) : Prop := content = [] ∨ below < floor

/-- A plain word is read up to the end of its line. -/
theorem plainScalar?_word (anchors : List (String × Yaml)) (hword : IsWord word)
    (h : Below rest below content) (houtside : Outside floor below content) (column : Nat) :
    plainScalar? false floor ⟨column, word ++ '\n' :: rest, anchors⟩ =
      some (.scalar none true (String.ofList word),
        ⟨column + word.length, '\n' :: rest, anchors⟩) := by
  have hpart : trimEnd (plainPart false false (word ++ '\n' :: rest)) = word := by
    rw [plainPart_word hword.forall_mem]
    show trimEnd (word ++ []) = word
    rw [List.append_nil, trimEnd_word hword.forall_mem]
  have hstart : startsPlain false (word ++ '\n' :: rest) = true := by
    obtain ⟨c, letters, rfl⟩ := List.exists_cons_of_ne_nil hword.ne_nil
    exact startsPlain_word (hword.forall_mem c List.mem_cons_self) _
  have hstop : ((['\n'] : List Char).isEmpty || (!false && decide (below < floor)) ||
      decide (content.head? = some '#') || (plainPart false false content).isEmpty) = true := by
    rcases houtside with rfl | hbelow
    · simp [plainPart]
    · simp [hbelow]
  have hcursor : (Cursor.mk column (word ++ '\n' :: rest) anchors).advance word.length =
      ⟨column + word.length, '\n' :: rest, anchors⟩ := by
    simp [Cursor.advance]
  have hlines : plainLines ((word ++ '\n' :: rest).length + 1) false floor []
      ⟨column, word ++ '\n' :: rest, anchors⟩ =
        some (word, ⟨column + word.length, '\n' :: rest, anchors⟩) := by
    rw [plainLines]
    simp only [hpart, hcursor, Bool.false_and, Bool.false_eq_true, if_false, List.nil_append,
      Option.bind_eq_bind]
    show (skipBreaks floor [] _ ('\n' :: rest)).bind _ = _
    rw [skipBreaks_below h]
    exact if_pos hstop
  unfold plainScalar?
  rw [if_pos hstart]
  show (plainLines _ false floor [] _).bind _ = _
  rw [hlines]
  rfl

theorem singlePieces_word (h : ∀ c ∈ word, isNameCharacter c = true) (text : List Char) :
    singlePieces (word ++ '\x27' :: '\n' :: text) = some (word.map .plain, '\n' :: text) := by
  induction word with
  | nil => rfl
  | cons c word ih =>
    obtain ⟨hc, hword⟩ := List.forall_mem_cons.1 h
    have hquote : c ≠ '\x27' := ne_of_isNameCharacter hc rfl
    rw [List.cons_append, singlePieces, ih hword]
    · rfl
    · exact fun _ heq _ => hquote heq
    · exact hquote

theorem foldPieces_word (h : ∀ c ∈ word, isNameCharacter c = true) :
    foldPieces (word.map .plain) = word := by
  have hfold : ∀ text : List Char, (word.map Piece.plain).foldl Folding.add ⟨text, [], [], false⟩ =
      ⟨word.reverse ++ text, [], [], false⟩ := by
    induction word with
    | nil => exact fun text => rfl
    | cons c word ih =>
      intro text
      obtain ⟨hc, hword⟩ := List.forall_mem_cons.1 h
      have hstep : Folding.add ⟨text, [], [], false⟩ (.plain c) = ⟨c :: text, [], [], false⟩ := by
        simp [Folding.add, Folding.flush, isBreak_of_isNameCharacter hc,
          isBlank_of_isNameCharacter hc]
      rw [List.map_cons, List.foldl_cons, hstep, ih hword, List.reverse_cons, List.append_assoc,
        List.singleton_append]
  unfold foldPieces
  rw [hfold]
  simp [Folding.flush]

/-- A word in quotes is read up to its closing quote. -/
theorem quotedScalar?_word (anchors : List (String × Yaml)) (hword : IsWord word) (column : Nat)
    (text : List Char) :
    ∃ behind, quotedScalar? ⟨column, '\x27' :: (word ++ '\x27' :: '\n' :: text), anchors⟩ =
      some (.scalar none false (String.ofList word), ⟨behind, '\n' :: text, anchors⟩) := by
  have hread : quotedScalar? ⟨column, '\x27' :: (word ++ '\x27' :: '\n' :: text), anchors⟩ =
      some (.scalar none false (String.ofList word),
        Cursor.jump ⟨column, '\x27' :: (word ++ '\x27' :: '\n' :: text), anchors⟩
          ('\n' :: text)) := by
    unfold quotedScalar?
    simp only [singlePieces_word hword.forall_mem, foldPieces_word hword.forall_mem,
      Option.bind_eq_bind, Option.bind_some]
    rfl
  exact ⟨_, hread⟩

end Scalars

/-! ## Atoms -/

section Atoms

variable {anchors : List (String × Yaml)} {rest content : List Char} {floor below : Nat}

theorem Atom.opens {node : Yaml} {text : List Char} (h : Atom node text) : Opens text := by
  cases h with
  | plain hword =>
    obtain ⟨c, letters, rfl⟩ := List.exists_cons_of_ne_nil hword.ne_nil
    exact ⟨c, letters, rfl,
      isContent_of_isNameCharacter (hword.forall_mem c List.mem_cons_self)⟩
  | quoted hword => exact ⟨_, _, rfl, by decide, by decide, by decide, by decide⟩
  | sequence => exact ⟨_, _, rfl, by decide, by decide, by decide, by decide⟩
  | mapping => exact ⟨_, _, rfl, by decide, by decide, by decide, by decide⟩

/-- An atom is read as the node on its line. -/
theorem lineNode?_atom (anchors : List (String × Yaml)) {node : Yaml} {text : List Char}
    (hatom : Atom node text) (h : Below rest below content)
    (houtside : Outside floor below content) (fuel sequenceFloor column : Nat) :
    ∃ behind, lineNode? (fuel + 3) floor sequenceFloor ⟨column, text ++ '\n' :: rest, anchors⟩ =
      some (node, ⟨behind, '\n' :: rest, anchors⟩) := by
  cases hatom with
  | plain hword =>
    obtain ⟨c, letters, rfl⟩ := List.exists_cons_of_ne_nil hword.ne_nil
    have hc : isNameCharacter c = true := hword.forall_mem c List.mem_cons_self
    have hscalar := plainScalar?_word anchors hword h houtside column
    have hproperties : startsProperties (c :: letters ++ '\n' :: rest) = false := by
      simp [startsProperties, ne_of_isNameCharacter hc (d := '&') rfl,
        ne_of_isNameCharacter hc (d := '!') rfl]
    refine ⟨column + (c :: letters).length, ?_⟩
    rw [lineNode?]
    split
    -- the other forms of a node start with marks, which no word does
    iterate 7
      next heq => exact absurd heq (word_ne_mark hc rfl)
    rw [hproperties, hscalar]
    show (Cursor.atLineEnd? _ >>= _) = _
    rw [atLineEnd?_below h]
    rfl
  | @quoted word hword =>
    obtain ⟨behind, hscalar⟩ := quotedScalar?_word anchors hword column rest
    refine ⟨behind, ?_⟩
    rw [List.cons_append, List.append_assoc, List.singleton_append, lineNode?]
    show (quotedScalar? _ >>= _) = _
    rw [hscalar]
    show (Cursor.atLineEnd? _ >>= _) = _
    rw [atLineEnd?_below h]
    rfl
  | sequence =>
    refine ⟨column + 2, ?_⟩
    rw [lineNode?]
    show (Cursor.atLineEnd? ⟨column + 2, '\n' :: rest, anchors⟩ >>= _) = _
    rw [atLineEnd?_below h]
    rfl
  | mapping =>
    refine ⟨column + 2, ?_⟩
    rw [lineNode?]
    show (Cursor.atLineEnd? ⟨column + 2, '\n' :: rest, anchors⟩ >>= _) = _
    rw [atLineEnd?_below h]
    rfl

theorem properties?_none {c : Char} (hanchor : c ≠ '&') (htag : c ≠ '!') (inFlow : Bool)
    (column : Nat) (text : List Char) :
    properties? inFlow ⟨column, c :: text, anchors⟩ =
      some (none, none, ⟨column, c :: text, anchors⟩) := by
  unfold properties?
  split
  · next heq => exact absurd (List.cons.inj heq).1 hanchor
  · next heq => exact absurd (List.cons.inj heq).1 htag
  · rfl

theorem startsProperties_eq_false {c : Char} (hanchor : c ≠ '&') (htag : c ≠ '!')
    (text : List Char) : startsProperties (c :: text) = false := by
  simp [startsProperties, hanchor, htag]

/-- A word in front of a mark is read as a key. -/
theorem keyNode?_word {word : List Char} (hword : IsWord word) (fuel column : Nat)
    {text : List Char} (hstop : plainPart false false text = []) :
    keyNode? fuel ⟨column, word ++ text, anchors⟩ =
      some (key word, ⟨column + word.length, text, anchors⟩) := by
  obtain ⟨c, letters, rfl⟩ := List.exists_cons_of_ne_nil hword.ne_nil
  have hc : isNameCharacter c = true := hword.forall_mem c List.mem_cons_self
  have hanchor : c ≠ '&' := ne_of_isNameCharacter hc rfl
  have htag : c ≠ '!' := ne_of_isNameCharacter hc rfl
  have hpart : trimEnd (plainPart false false (c :: letters ++ text)) = c :: letters := by
    rw [plainPart_word hword.forall_mem, hstop, List.append_nil, trimEnd_word hword.forall_mem]
  have hcursor : (Cursor.mk column (c :: letters ++ text) anchors).advance (c :: letters).length =
      ⟨column + (c :: letters).length, text, anchors⟩ := by
    simp [Cursor.advance]
  unfold keyNode?
  rw [List.cons_append] at hpart hcursor ⊢
  rw [properties?_none hanchor htag]
  simp only [startsProperties_eq_false hanchor htag, Option.bind_eq_bind, Option.bind_some]
  split
  iterate 5
    next heq => exact absurd heq (word_ne_mark hc rfl)
  simp only [Bool.false_eq_true, if_false, startsPlain_word hc, if_true, hpart, hcursor]
  rfl

/-- A word and a colon with a blank or a break behind it are a key. -/
theorem implicitKey?_word {word : List Char} (hword : IsWord word) (fuel column : Nat)
    {text : List Char} (hspace : atSpace text = true) :
    implicitKey? fuel ⟨column, word ++ ':' :: text, anchors⟩ =
      some (key word, ⟨column + word.length + 1, text, anchors⟩) := by
  have hstop : plainPart false false (':' :: text) = [] := by
    rw [plainPart, hspace]
    rfl
  have hread : readBetween ⟨column, word ++ ':' :: text, anchors⟩
      ⟨column + word.length, ':' :: text, anchors⟩ = word := by
    simp [readBetween]
  have hbreak : word.any isBreak = false := by
    apply List.any_eq_false.2
    intro c hc
    rw [hword.not_isBreak c hc]
    exact Bool.false_ne_true
  unfold implicitKey?
  rw [keyNode?_word hword fuel column hstop]
  show (if atSpace text && !(readBetween ⟨column, word ++ ':' :: text, anchors⟩
      ⟨column + word.length, ':' :: text, anchors⟩).any isBreak then _ else none) = _
  rw [hread, hspace, hbreak]
  rfl

/-- An atom at the end of its line is no key. -/
theorem implicitKey?_atom {node : Yaml} {text : List Char} (hatom : Atom node text)
    (fuel column : Nat) :
    implicitKey? (fuel + 2) ⟨column, text ++ '\n' :: rest, anchors⟩ = none := by
  have hkey : ∃ behind, keyNode? (fuel + 2) ⟨column, text ++ '\n' :: rest, anchors⟩ =
      some (node, ⟨behind, '\n' :: rest, anchors⟩) := by
    cases hatom with
    | plain hword => exact ⟨_, keyNode?_word hword _ _ rfl⟩
    | @quoted word hword =>
      obtain ⟨behind, hscalar⟩ := quotedScalar?_word anchors hword column rest
      refine ⟨behind, ?_⟩
      rw [List.cons_append, List.append_assoc, List.singleton_append]
      show (quotedScalar? ⟨column, '\x27' :: (word ++ '\x27' :: '\n' :: rest), anchors⟩ >>= _) = _
      rw [hscalar]
      rfl
    | sequence => exact ⟨column + 2, rfl⟩
    | mapping => exact ⟨column + 2, rfl⟩
  obtain ⟨behind, hkey⟩ := hkey
  unfold implicitKey?
  rw [hkey]
  rfl

theorem startsMark_eq_false {mark c : Char} (h : c ≠ mark) (text : List Char) :
    startsMark mark (c :: text) = false := by
  rw [startsMark, decide_eq_false h, Bool.false_and]

theorem startsMark_word {mark : Char} {word : List Char} (hword : IsWord word)
    (hmark : isNameCharacter mark = false) (text : List Char) :
    startsMark mark (word ++ text) = false := by
  obtain ⟨c, letters, rfl⟩ := List.exists_cons_of_ne_nil hword.ne_nil
  exact startsMark_eq_false
    (ne_of_isNameCharacter (hword.forall_mem c List.mem_cons_self) hmark) _

/-- An atom starts with no mark of a block collection. -/
theorem startsMark_atom {node : Yaml} {text : List Char} (hatom : Atom node text)
    (behind : List Char) :
    startsMark '-' (text ++ behind) = false ∧ startsMark '?' (text ++ behind) = false := by
  cases hatom with
  | plain hword => exact ⟨startsMark_word hword rfl _, startsMark_word hword rfl _⟩
  | quoted | sequence | mapping => exact ⟨rfl, rfl⟩

/-- An atom is read as the node at its column. -/
theorem blockNode?_atom {node : Yaml} {text : List Char} (hatom : Atom node text)
    (h : Below rest below content) (houtside : Outside floor below content) (fuel column : Nat) :
    ∃ behind, blockNode? (fuel + 4) floor ⟨column, text ++ '\n' :: rest, anchors⟩ =
      some (node, ⟨behind, '\n' :: rest, anchors⟩) := by
  obtain ⟨hitem, hkey⟩ := startsMark_atom hatom ('\n' :: rest)
  obtain ⟨behind, hline⟩ := lineNode?_atom anchors hatom h houtside fuel floor column
  refine ⟨behind, ?_⟩
  rw [blockNode?, startsItem, hitem, hkey, implicitKey?_atom hatom (fuel + 1) column, hline]
  rfl

end Atoms

/-! ## Collections -/

section Collections

variable {column : Nat}

theorem Items.startsItem {items : List Yaml} {text : List Char} (h : Items column items text)
    (behind : List Char) : startsItem (text ++ behind) = true := by
  cases h <;> rfl

theorem Items.opens {items : List Yaml} {text : List Char} (h : Items column items text) :
    Opens text := by
  cases h <;> exact ⟨_, _, rfl, by decide, by decide, by decide, by decide⟩

theorem IsWord.opens {word : List Char} (h : IsWord word) (behind : List Char) :
    Opens (word ++ behind) := by
  obtain ⟨c, letters, rfl⟩ := List.exists_cons_of_ne_nil h.ne_nil
  exact ⟨c, letters ++ behind, rfl,
    isContent_of_isNameCharacter (h.forall_mem c List.mem_cons_self)⟩

theorem Entries.opens {entries : List (Yaml × Yaml)} {text : List Char}
    (h : Entries column entries text) : Opens text := by
  cases h with
  | last hword => exact hword.opens _
  | next hword => exact hword.opens _

theorem Layout.opens {node : Yaml} {text : List Char} (h : Layout column node text) :
    Opens text := by
  cases h with
  | atom hatom => exact hatom.opens
  | sequence hitems => exact hitems.opens
  | mapping hentries => exact hentries.opens

theorem Opens.append {text : List Char} (h : Opens text) (behind : List Char) :
    Opens (text ++ behind) := by
  obtain ⟨c, rest, rfl, hc⟩ := h
  exact ⟨c, rest ++ behind, rfl, hc⟩

theorem Opens.length_pos {text : List Char} (h : Opens text) : 0 < text.length := by
  obtain ⟨c, rest, rfl, -⟩ := h
  exact Nat.succ_pos _

theorem Behind.atSpace {node : Yaml} {text : List Char} (h : Behind column node text)
    (behind : List Char) : atSpace (text ++ behind) = true := by
  cases h <;> rfl

/-- A mapping starts with a key, which is no dash and no question mark. -/
theorem Entries.starts {entries : List (Yaml × Yaml)} {text : List Char}
    (h : Entries column entries text) (fuel : Nat) (behind : List Char) (place : Nat)
    (anchors : List (String × Yaml)) :
    startsMark '-' (text ++ behind) = false ∧ startsMark '?' (text ++ behind) = false ∧
      (implicitKey? fuel ⟨place, text ++ behind, anchors⟩).isSome = true := by
  cases h with
  | last hword hbehind =>
    rw [List.append_assoc, List.cons_append]
    refine ⟨startsMark_word hword rfl _, startsMark_word hword rfl _, ?_⟩
    rw [implicitKey?_word hword fuel place (hbehind.atSpace behind)]
    rfl
  | next hword hbehind =>
    rw [List.append_assoc, List.cons_append, List.append_assoc]
    refine ⟨startsMark_word hword rfl _, startsMark_word hword rfl _, ?_⟩
    rw [implicitKey?_word hword fuel place (hbehind.atSpace _)]
    rfl

/-- The line below does not go on with the items at the column. -/
def OutsideItems (column below : Nat) (content : List Char) : Prop :=
  content = [] ∨ below < column ∨ below = column ∧ Yaml.startsItem content = false

theorem Outside.items {floor below : Nat} {content : List Char} (h : Outside floor below content)
    (hfloor : floor ≤ column) : OutsideItems column below content := by
  rcases h with h | h
  · exact .inl h
  · exact .inr (.inl (by omega))

theorem Outside.mono {floor below : Nat} {content : List Char} (h : Outside floor below content)
    (hfloor : floor ≤ column) : Outside column below content := by
  rcases h with h | h
  · exact .inl h
  · exact .inr (by omega)

theorem OutsideItems.node {below : Nat} {content : List Char}
    (h : OutsideItems column below content) : Outside (column + 1) below content := by
  rcases h with h | h | ⟨h, -⟩
  · exact .inl h
  · exact .inr (by omega)
  · exact .inr (by omega)

theorem OutsideItems.entries {below : Nat} {content : List Char}
    (h : OutsideItems column below content) : Outside (column + 2) below content := by
  rcases h.node with h | h
  · exact .inl h
  · exact .inr (by omega)

variable {anchors : List (String × Yaml)} {text : List Char} {floor sequenceFloor : Nat}

/-- Behind a dash and a space stands a node of any kind. -/
theorem nodeBehind?_compact (h : Opens text) (fuel : Nat) :
    nodeBehind? (fuel + 1) floor sequenceFloor true ⟨column, ' ' :: text, anchors⟩ =
      blockNode? fuel floor ⟨column + 1, text, anchors⟩ := by
  obtain ⟨c, rest, rfl, -⟩ := id h
  rw [nodeBehind?, toContent_space h]
  rfl

/-- Behind a colon and a space stands a node of one line. -/
theorem nodeBehind?_line (h : Opens text) (fuel : Nat) :
    nodeBehind? (fuel + 1) floor sequenceFloor false ⟨column, ' ' :: text, anchors⟩ =
      lineNode? fuel floor sequenceFloor ⟨column + 1, text, anchors⟩ := by
  obtain ⟨c, rest, rfl, -⟩ := id h
  rw [nodeBehind?, toContent_space h]
  rfl

/-- On the lines below stands a node to the right, or a sequence. -/
theorem nodeBehind?_below (h : Opens text) {below : Nat}
    (hplace : floor ≤ below ∨ sequenceFloor ≤ below ∧ Yaml.startsItem text = true) (fuel : Nat)
    (compact : Bool) :
    nodeBehind? (fuel + 1) floor sequenceFloor compact
        ⟨column, '\n' :: (Scalar.indentation below ++ text), anchors⟩ =
      blockNode? fuel floor ⟨below, text, anchors⟩ := by
  have hplace : (decide (floor ≤ below) ||
      (decide (sequenceFloor ≤ below) && Yaml.startsItem text)) = true := by
    simpa using hplace
  obtain ⟨c, rest, rfl, -⟩ := id h
  rw [nodeBehind?, toContent_below (.line h)]
  simp only [List.isEmpty_cons, Bool.false_eq_true, if_false, if_true, hplace]

section Steps

variable {fuel behind below : Nat} {node : Yaml} {rest content : List Char}

theorem Opens.isEmpty (h : Opens content) : content.isEmpty = false := by
  obtain ⟨c, rest, rfl, -⟩ := h
  rfl

/-- An item is the last one if the line below is outside. -/
theorem blockItems?_last
    (hitem : nodeBehind? fuel (column + 1) (column + 1) true ⟨column + 1, text, anchors⟩ =
      some (node, ⟨behind, '\n' :: rest, anchors⟩))
    (h : Below rest below content) (houtside : OutsideItems column below content) :
    blockItems? (fuel + 1) ⟨column, '-' :: text, anchors⟩ =
      some ([node], ⟨behind, '\n' :: rest, anchors⟩) := by
  rw [blockItems?]
  show (nodeBehind? fuel (column + 1) (column + 1) true ⟨column + 1, text, anchors⟩ >>= _) = _
  rw [hitem]
  simp only [Option.bind_eq_bind, Option.bind_some, toBlockContent_below h]
  rcases houtside with rfl | hbelow | ⟨rfl, hstart⟩
  · rfl
  · simp only [decide_eq_true hbelow, Bool.or_true, if_true]
    rfl
  · rw [hstart]
    simp

/-- Items go on where a dash stands at their column. -/
theorem blockItems?_next {nodes : List Yaml} {next : Cursor}
    (hitem : nodeBehind? fuel (column + 1) (column + 1) true ⟨column + 1, text, anchors⟩ =
      some (node, ⟨behind, '\n' :: (Scalar.indentation column ++ content), anchors⟩))
    (hopens : Opens content) (hstart : Yaml.startsItem content = true)
    (hnext : blockItems? fuel ⟨column, content, anchors⟩ = some (nodes, next)) :
    blockItems? (fuel + 1) ⟨column, '-' :: text, anchors⟩ = some (node :: nodes, next) := by
  rw [blockItems?]
  show (nodeBehind? fuel (column + 1) (column + 1) true ⟨column + 1, text, anchors⟩ >>= _) = _
  rw [hitem]
  simp only [Option.bind_eq_bind, Option.bind_some, toBlockContent_below (.line hopens),
    hopens.isEmpty, Nat.lt_irrefl, decide_false, Bool.or_false, Bool.false_eq_true, if_false,
    if_true, hstart, hnext]
  rfl

/-- The entry of a word is the node behind its colon. -/
theorem blockEntry?_word {word : List Char} {next : Cursor} (hword : IsWord word)
    (hspace : Yaml.atSpace text = true)
    (hvalue : nodeBehind? fuel (column + 1) column false
      ⟨column + word.length + 1, text, anchors⟩ = some (node, next)) :
    blockEntry? (fuel + 1) ⟨column, word ++ ':' :: text, anchors⟩ =
      some (key word, node, next) := by
  unfold blockEntry?
  rw [startsMark_word hword rfl, implicitKey?_word hword fuel column hspace]
  show (nodeBehind? fuel (column + 1) column false _ >>= _) = _
  rw [hvalue]
  rfl

theorem blockEntries?_last {entry : Yaml × Yaml}
    (hentry : blockEntry? fuel ⟨column, text, anchors⟩ =
      some (entry.1, entry.2, ⟨behind, '\n' :: rest, anchors⟩))
    (h : Below rest below content) (houtside : Outside column below content) :
    blockEntries? (fuel + 1) ⟨column, text, anchors⟩ =
      some ([entry], ⟨behind, '\n' :: rest, anchors⟩) := by
  rw [blockEntries?, hentry]
  simp only [Option.bind_eq_bind, Option.bind_some, toBlockContent_below h]
  rcases houtside with rfl | hbelow
  · rfl
  · simp only [decide_eq_true hbelow, Bool.or_true, if_true]
    rfl

theorem blockEntries?_next {entry : Yaml × Yaml} {entries : List (Yaml × Yaml)} {next : Cursor}
    (hentry : blockEntry? fuel ⟨column, text, anchors⟩ =
      some (entry.1, entry.2,
        ⟨behind, '\n' :: (Scalar.indentation column ++ content), anchors⟩))
    (hopens : Opens content)
    (hnext : blockEntries? fuel ⟨column, content, anchors⟩ = some (entries, next)) :
    blockEntries? (fuel + 1) ⟨column, text, anchors⟩ = some (entry :: entries, next) := by
  rw [blockEntries?, hentry]
  simp only [Option.bind_eq_bind, Option.bind_some, toBlockContent_below (.line hopens),
    hopens.isEmpty, Nat.lt_irrefl, decide_false, Bool.or_false, Bool.false_eq_true, if_false,
    if_true, hnext]
  rfl

theorem blockNode?_sequence {nodes : List Yaml} {next : Cursor}
    (hstart : Yaml.startsItem text = true)
    (hitems : blockItems? fuel ⟨column, text, anchors⟩ = some (nodes, next)) :
    blockNode? (fuel + 1) floor ⟨column, text, anchors⟩ = some (.sequence none nodes, next) := by
  rw [blockNode?, hstart, if_pos rfl, hitems]
  rfl

theorem blockNode?_mapping {entries : List (Yaml × Yaml)} {place : Nat} {next : Cursor}
    (hlayout : Entries place entries content)
    (hentries : blockEntries? fuel ⟨column, content ++ rest, anchors⟩ = some (entries, next)) :
    blockNode? (fuel + 1) floor ⟨column, content ++ rest, anchors⟩ =
      some (.mapping none entries, next) := by
  obtain ⟨hitem, hmark, hkey⟩ := hlayout.starts fuel rest column anchors
  rw [blockNode?, Yaml.startsItem, hitem, hmark, hkey, hentries]
  rfl

end Steps

/-! ### Nodes, items and entries

Each of the four lemmas takes the fuel that its own calls need and leaves the rest to the parts of
the layout. The items below a first one are outside of its node because they start to the left of
it. The entries below a first one are outside even where its node is a sequence at the same column,
because no key starts like an item. -/

mutual

/-- A node is read from its layout, if the line below is outside. -/
theorem Layout.read {column : Nat} {node : Yaml} {text : List Char} :
    Layout column node text → ∀ {rest content : List Char} {below floor fuel : Nat},
      Below rest below content → Outside floor below content → floor ≤ column →
      5 * text.length ≤ fuel →
      ∃ behind, blockNode? fuel floor ⟨column, text ++ '\n' :: rest, anchors⟩ =
        some (node, ⟨behind, '\n' :: rest, anchors⟩)
  | .atom hatom, _, _, _, _, fuel, h, houtside, hfloor, hfuel => by
    have hlength := hatom.opens.length_pos
    obtain ⟨fuel, rfl⟩ : ∃ k, fuel = k + 4 := ⟨fuel - 4, by omega⟩
    exact blockNode?_atom hatom h houtside fuel column
  | .sequence hitems, _, _, _, _, fuel, h, houtside, hfloor, hfuel => by
    have hlength := hitems.opens.length_pos
    obtain ⟨fuel, rfl⟩ : ∃ k, fuel = k + 1 := ⟨fuel - 1, by omega⟩
    obtain ⟨behind, hread⟩ := hitems.read h (houtside.items hfloor) hfuel
    exact ⟨behind, blockNode?_sequence (hitems.startsItem _) hread⟩
  | .mapping hentries, _, _, _, _, fuel, h, houtside, hfloor, hfuel => by
    have hlength := hentries.opens.length_pos
    obtain ⟨fuel, rfl⟩ : ∃ k, fuel = k + 1 := ⟨fuel - 1, by omega⟩
    obtain ⟨behind, hread⟩ := hentries.read h (houtside.mono hfloor) hfuel
    exact ⟨behind, blockNode?_mapping hentries hread⟩

/-- The items of a sequence are read, if the line below is outside. -/
theorem Items.read {column : Nat} {nodes : List Yaml} {text : List Char} :
    Items column nodes text → ∀ {rest content : List Char} {below fuel : Nat},
      Below rest below content → OutsideItems column below content → 5 * text.length ≤ fuel + 1 →
      ∃ behind, blockItems? fuel ⟨column, text ++ '\n' :: rest, anchors⟩ =
        some (nodes, ⟨behind, '\n' :: rest, anchors⟩)
  | .last hnode, _, _, _, fuel, h, houtside, hfuel => by
    simp only [List.length_cons] at hfuel
    obtain ⟨fuel, rfl⟩ : ∃ k, fuel = k + 2 := ⟨fuel - 2, by omega⟩
    obtain ⟨behind, hread⟩ := hnode.read h houtside.node (Nat.le_succ _)
      (show _ ≤ fuel by omega)
    rw [← nodeBehind?_compact (hnode.opens.append _)] at hread
    exact ⟨behind, blockItems?_last hread h houtside⟩
  | .next hnode hitems, rest, _, _, fuel, h, houtside, hfuel => by
    simp only [List.length_cons, List.length_append] at hfuel
    obtain ⟨fuel, rfl⟩ : ∃ k, fuel = k + 2 := ⟨fuel - 2, by omega⟩
    have hopens := hitems.opens.append ('\n' :: rest)
    obtain ⟨place, hread⟩ := hnode.read (.line hopens) (.inr (Nat.lt_succ_self _)) (Nat.le_succ _)
      (show _ ≤ fuel by omega)
    obtain ⟨behind, hnext⟩ := hitems.read h houtside (show _ ≤ fuel + 1 + 1 by omega)
    rw [← nodeBehind?_compact (hnode.opens.append _)] at hread
    refine ⟨behind, ?_⟩
    simp only [List.cons_append, List.append_assoc]
    exact blockItems?_next hread hopens (hitems.startsItem _) hnext

/-- The entries of a mapping are read, if the line below is outside. -/
theorem Entries.read {column : Nat} {entries : List (Yaml × Yaml)} {text : List Char} :
    Entries column entries text → ∀ {rest content : List Char} {below fuel : Nat},
      Below rest below content → Outside column below content → 5 * text.length ≤ fuel + 1 →
      ∃ behind, blockEntries? fuel ⟨column, text ++ '\n' :: rest, anchors⟩ =
        some (entries, ⟨behind, '\n' :: rest, anchors⟩)
  | .last hword hnode, _, _, _, fuel, h, houtside, hfuel => by
    simp only [List.length_append, List.length_cons] at hfuel
    obtain ⟨fuel, rfl⟩ : ∃ k, fuel = k + 2 := ⟨fuel - 2, by omega⟩
    obtain ⟨behind, hread⟩ := hnode.read h (houtside.items (Nat.le_refl _))
      (show _ ≤ fuel by omega)
    refine ⟨behind, ?_⟩
    simp only [List.append_assoc, List.cons_append]
    exact blockEntries?_last (blockEntry?_word hword (hnode.atSpace _) hread) h houtside
  | .next hword hnode hentries, rest, _, _, fuel, h, houtside, hfuel => by
    simp only [List.length_append, List.length_cons] at hfuel
    obtain ⟨fuel, rfl⟩ : ∃ k, fuel = k + 2 := ⟨fuel - 2, by omega⟩
    have hopens := hentries.opens.append ('\n' :: rest)
    have hitems : Yaml.startsItem _ = false := (hentries.starts fuel ('\n' :: rest) 0 anchors).1
    obtain ⟨place, hread⟩ := hnode.read (.line hopens) (.inr (.inr ⟨rfl, hitems⟩))
      (show _ ≤ fuel by omega)
    obtain ⟨behind, hnext⟩ := hentries.read h houtside (show _ ≤ fuel + 1 + 1 by omega)
    refine ⟨behind, ?_⟩
    simp only [List.append_assoc, List.cons_append]
    exact blockEntries?_next (blockEntry?_word hword (hnode.atSpace _) hread) hopens hnext

/-- The node behind a colon is read, if the line below is outside. -/
theorem Behind.read {column : Nat} {node : Yaml} {text : List Char} :
    Behind column node text → ∀ {rest content : List Char} {below fuel place : Nat},
      Below rest below content → OutsideItems column below content → 5 * text.length ≤ fuel →
      ∃ behind, nodeBehind? fuel (column + 1) column false
          ⟨place, text ++ '\n' :: rest, anchors⟩ =
        some (node, ⟨behind, '\n' :: rest, anchors⟩)
  | .atom hatom, _, _, _, fuel, place, h, houtside, hfuel => by
    simp only [List.length_cons] at hfuel
    obtain ⟨fuel, rfl⟩ : ∃ k, fuel = k + 4 := ⟨fuel - 4, by omega⟩
    rw [List.cons_append, nodeBehind?_line (hatom.opens.append _)]
    exact lineNode?_atom _ hatom h houtside.node fuel column (place + 1)
  | .sequence hitems, _, _, _, fuel, _, h, houtside, hfuel => by
    simp only [List.length_append, List.length_cons] at hfuel
    obtain ⟨fuel, rfl⟩ : ∃ k, fuel = k + 2 := ⟨fuel - 2, by omega⟩
    obtain ⟨behind, hread⟩ := hitems.read h houtside (show _ ≤ fuel + 1 by omega)
    refine ⟨behind, ?_⟩
    rw [List.cons_append, List.append_assoc, nodeBehind?_below (hitems.opens.append _)
      (.inr ⟨Nat.le_refl _, hitems.startsItem _⟩)]
    exact blockNode?_sequence (hitems.startsItem _) hread
  | .mapping hentries, _, _, _, fuel, _, h, houtside, hfuel => by
    simp only [List.length_append, List.length_cons] at hfuel
    obtain ⟨fuel, rfl⟩ : ∃ k, fuel = k + 2 := ⟨fuel - 2, by omega⟩
    obtain ⟨behind, hread⟩ := hentries.read h houtside.entries (show _ ≤ fuel + 1 by omega)
    refine ⟨behind, ?_⟩
    rw [List.cons_append, List.append_assoc, nodeBehind?_below (hentries.opens.append _)
      (.inl (Nat.le_succ _))]
    exact blockNode?_mapping hentries hread

end

end Collections

end Tableau.Yaml
