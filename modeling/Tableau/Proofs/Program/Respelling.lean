import Tableau.Proofs.Painting.Blame
import Tableau.Proofs.Painting.Lines
import Tableau.Proofs.Program.Stuck

/-!
# Layout and the spelling of keywords carry no meaning

Two tokens are `Alike` if they have the same kind and, where the text counts, the same text; their
lines and all other texts may differ. The parser reads kinds only, so on lists of such tokens it is
stuck at the same position, or else finds trees that differ in their tokens alone. Of those a
painting reads the texts that count. So both trees have the same scene, or both are at fault for the
same cause, and blame the tokens at one common position (`Program.outcome_alike`).

The two trees are images of one tree whose tokens are `numbered`: the line of such a token is its
position, and `placedIn` puts the token of either list into its place.
-/

namespace Tableau

namespace Token

/-- The same kind, and the same text if that of a name or a number. -/
structure Alike (token other : Token) : Prop where
  kind_eq : token.kind = other.kind
  text_eq : token.kind = .name ∨ token.kind = .number → token.text = other.text

instance : DecidableRel Alike := fun token other =>
  decidable_of_iff
    (token.kind = other.kind ∧
      (token.kind = .name ∨ token.kind = .number → token.text = other.text))
    ⟨fun h => ⟨h.1, h.2⟩, fun h => ⟨h.1, h.2⟩⟩

/-- Tokens of the given kinds that have their positions for lines. -/
def numbered (kinds : List Kind) : List Token :=
  kinds.mapIdx fun position kind => ⟨kind, "", position⟩

/-- The token of a list at the position that a numbered token has for its line. -/
def placedIn (tokens : List Token) (place : Token) : Token :=
  match tokens[place.line]? with
  | some token => { token with kind := place.kind }
  | none => place

variable {tokens others : List Token} {place : Token}

theorem kind_placedIn (tokens : List Token) (place : Token) :
    (placedIn tokens place).kind = place.kind := by
  unfold placedIn
  split <;> rfl

theorem map_placedIn (tokens : List Token) :
    (numbered (tokens.map kind)).map (placedIn tokens) = tokens := by
  refine List.ext_getElem? fun position => ?_
  simp only [numbered, List.getElem?_map, List.getElem?_mapIdx]
  cases htoken : tokens[position]? with
  | none => rfl
  | some token => simp [placedIn, htoken]

/-- The first numbered tokens have the first numbers. -/
theorem line_lt_of_mem {kinds : List Kind} {used rest : List Token}
    (hsplit : numbered kinds = used ++ rest) (hmem : place ∈ used) : place.line < used.length := by
  obtain ⟨position, hposition, rfl⟩ := List.getElem_of_mem hmem
  have hplace : (numbered kinds)[position]? = some used[position] := by
    rw [hsplit, List.getElem?_append_left hposition, List.getElem?_eq_getElem]
  rw [numbered, List.getElem?_mapIdx] at hplace
  obtain ⟨kind, -, hplace⟩ := Option.map_eq_some_iff.1 hplace
  rw [← hplace]
  exact hposition

theorem Alike.map_kind (h : List.Forall₂ Alike tokens others) :
    tokens.map kind = others.map kind := by
  induction h with
  | nil => rfl
  | cons hfirst _ ih => rw [List.map_cons, List.map_cons, hfirst.kind_eq, ih]

/-- The tokens that two alike lists put into the place of a numbered token. -/
theorem Alike.exists_placed (h : List.Forall₂ Alike tokens others)
    (hplace : place ∈ numbered (tokens.map kind)) :
    ∃ token other, tokens[place.line]? = some token ∧ others[place.line]? = some other ∧
      token.Alike other ∧ token.kind = place.kind ∧ placedIn tokens place = token ∧
      placedIn others place = other := by
  obtain ⟨position, hposition, rfl⟩ := List.mem_mapIdx.1 hplace
  obtain ⟨hlength, halike⟩ := List.forall₂_iff_get.1 h
  have hlt : position < tokens.length := by simpa using hposition
  have hlt' : position < others.length := hlength ▸ hlt
  have hsame := halike position hlt hlt'
  refine ⟨tokens[position], others[position], List.getElem?_eq_getElem hlt,
    List.getElem?_eq_getElem hlt', hsame, by simp, ?_, ?_⟩
  · simp [placedIn, hlt]
  · have hkind : tokens[position].kind = others[position].kind := hsame.kind_eq
    simp [placedIn, hlt', hkind]

end Token

namespace Program

variable {tokens others : List Token}

/-! ## One tree for both lists -/

/-- The parser reads kinds, and carries the tokens into the tree or to the fault. -/
theorem program_eq_carry (tokens : List Token) :
    Parser.program tokens = Parser.carry (Token.placedIn tokens) (map (Token.placedIn tokens))
      (Parser.program (Token.numbered (tokens.map Token.kind))) := by
  have hmirror := Parser.mirrors_program (Token.kind_placedIn tokens)
    (Token.numbered (tokens.map Token.kind))
  rwa [Token.map_placedIn] at hmirror

theorem alike_marked (h : List.Forall₂ Token.Alike tokens others) :
    List.Forall₂ Token.Alike (tokens ++ [endMarker tokens]) (others ++ [endMarker others]) := by
  have hmarker : (endMarker tokens).Alike (endMarker others) :=
    ⟨rfl, fun h => by rcases h with h | h <;> cases h⟩
  exact List.rel_append h (.cons hmarker .nil)

/-- Alike lists are stuck at the same position. -/
theorem stuckAt?_congr (h : List.Forall₂ Token.Alike tokens others) :
    stuckAt? tokens = stuckAt? others := by
  unfold stuckAt?
  rw [program_eq_carry (tokens ++ _), program_eq_carry (others ++ _),
    Token.Alike.map_kind (alike_marked h), h.length_eq]
  cases Parser.program _ with
  | error left => simp [Parser.carry]
  | ok found => rfl

/-- The trees of alike lists are images of one tree. Under the two maps every token of its spelling
becomes the token at one position of either list. -/
theorem exists_common_tree (h : List.Forall₂ Token.Alike tokens others) {tree tree' : Program}
    (htree : parse tokens = .ok tree) (htree' : parse others = .ok tree') :
    ∃ (common : Program) (used : List Token) (f g : Token → Token), common.SpelledBy used ∧
      tree = common.map f ∧ tree' = common.map g ∧
      ∀ place ∈ used, tokens[place.line]? = some (f place) ∧
        others[place.line]? = some (g place) ∧ (f place).kind = place.kind ∧
        (f place).Alike (g place) := by
  have hmarked := alike_marked h
  simp only [parse] at htree htree'
  rw [program_eq_carry] at htree htree'
  rw [← Token.Alike.map_kind hmarked] at htree'
  cases hread : Parser.program (Token.numbered ((tokens ++ [endMarker tokens]).map Token.kind)) with
  | error left => rw [hread] at htree; cases htree
  | ok found =>
    obtain ⟨common, rest⟩ := found
    rw [hread] at htree htree'
    cases htree
    cases htree'
    obtain ⟨used, marker, hsplit, -, hspelled⟩ := Parser.program_eq_ok.1 hread
    refine ⟨common, used, _, _, hspelled, rfl, rfl, fun place hplace => ?_⟩
    have hlength : used.length ≤ tokens.length := by
      have hlengths := congrArg List.length hsplit
      simp [Token.numbered] at hlengths
      omega
    -- The marker is not among the tokens that spell the tree.
    have hline := Nat.lt_of_lt_of_le (Token.line_lt_of_mem hsplit hplace) hlength
    obtain ⟨token, other, htoken, hother, halike, hkind, rfl, rfl⟩ :=
      Token.Alike.exists_placed hmarked (hsplit ▸ List.mem_append_left _ hplace)
    rw [List.getElem?_append_left hline] at htoken
    rw [List.getElem?_append_left (h.length_eq ▸ hline)] at hother
    exact ⟨htoken, hother, hkind, halike⟩

/-- Both trees paint the same scene, or blame the tokens at one position for the same cause. -/
theorem paint_alike (h : List.Forall₂ Token.Alike tokens others) {tree tree' : Program}
    (htree : parse tokens = .ok tree) (htree' : parse others = .ok tree') :
    (∃ scene, tree.paint = .ok scene ∧ tree'.paint = .ok scene) ∨
      ∃ (cause : Cause) (position : Nat) (token other : Token), tokens[position]? = some token ∧
        others[position]? = some other ∧ tree.paint = .error ⟨cause, token.line⟩ ∧
        tree'.paint = .error ⟨cause, other.line⟩ := by
  obtain ⟨common, used, f, g, hspelled, rfl, rfl, hplaced⟩ := exists_common_tree h htree htree'
  have hclauses : ∀ clause ∈ common.clauses, clause.tokens ⊆ used ∧
      ∀ place ∈ clause.texts, place.kind = .name ∨ place.kind = .number := by
    intro clause hclause
    obtain ⟨position, hposition⟩ := List.mem_iff_getElem?.1 hclause
    obtain ⟨span, hspan, hclause⟩ := hspelled.exists_span hposition
    have hsublist := Token.sublist_of_mem_spans (List.mem_of_getElem? hspan)
    exact ⟨List.Subset.trans hclause.tokens_subset hsublist.subset, hclause.kind_of_mem_texts⟩
  have htexts : ∀ clause ∈ common.clauses, ∀ place ∈ clause.texts,
      (f place).text = (g place).text := by
    intro clause hclause place hplace
    obtain ⟨hused, hkinds⟩ := hclauses clause hclause
    obtain ⟨-, -, hkind, halike⟩ := hplaced place (hused (clause.texts_subset hplace))
    exact halike.text_eq (hkind ▸ hkinds place hplace)
  have hsame := sameBlame_paint htexts
  generalize (common.map f).paint = answer, (common.map g).paint = answer' at hsame ⊢
  cases hsame with
  | ok scene => exact .inl ⟨scene, rfl, rfl⟩
  | @error cause place hplace =>
    obtain ⟨clause, hclause, hplace⟩ := List.mem_flatMap.1 hplace
    obtain ⟨htoken, hother, -, -⟩ := hplaced place ((hclauses clause hclause).1 hplace)
    exact .inr ⟨cause, place.line, f place, g place, htoken, hother, rfl, rfl⟩

/-- Lists of tokens that are alike have the same outcome. Either the parser is stuck in both at the
same position, and each list has the fault at its own token there. Or both have trees, and both
trees have the same scene or faults of the same cause, each on the line of its own token at a common
position. -/
theorem outcome_alike (h : List.Forall₂ Token.Alike tokens others) :
    (∃ position token other, stuckAt? tokens = some position ∧ stuckAt? others = some position ∧
      (tokens ++ [endMarker tokens])[position]? = some token ∧
      (others ++ [endMarker others])[position]? = some other ∧
      parse tokens = .error (faultAt token) ∧ parse others = .error (faultAt other)) ∨
    ∃ tree tree', parse tokens = .ok tree ∧ parse others = .ok tree' ∧
      ((∃ scene, tree.paint = .ok scene ∧ tree'.paint = .ok scene) ∨
        ∃ (cause : Cause) (position : Nat) (token other : Token), cause.stage = .painting ∧
          tokens[position]? = some token ∧ others[position]? = some other ∧
          tree.paint = .error ⟨cause, token.line⟩ ∧ tree'.paint = .error ⟨cause, other.line⟩) := by
  have hstuck := stuckAt?_congr h
  rcases parse_cases tokens with ⟨hnone, tree, htree⟩ | ⟨position, token, hposition, htoken, hfault⟩
  · rcases parse_cases others with ⟨-, tree', htree'⟩ | ⟨position, _, hposition, -, -⟩
    · refine .inr ⟨tree, tree', htree, htree', ?_⟩
      rcases paint_alike h htree htree' with hscene | ⟨cause, position, token, other, hfault⟩
      · exact .inl hscene
      · obtain ⟨htoken, hother, hpaint, hpaint'⟩ := hfault
        have hstage : cause.stage = .painting := stage_of_paint hpaint
        exact .inr ⟨cause, position, token, other, hstage, htoken, hother, hpaint, hpaint'⟩
    · rw [← hstuck, hnone] at hposition
      cases hposition
  · rcases parse_cases others with ⟨hnone, -⟩ | ⟨position', other, hposition', hother, hfault'⟩
    · rw [← hstuck, hposition] at hnone
      cases hnone
    · obtain rfl : position = position' :=
        Option.some.inj (hposition.symm.trans (hstuck.trans hposition'))
      exact .inl ⟨position, token, other, hposition, hposition', htoken, hother, hfault, hfault'⟩

/-- A second shape of the name `A` is a fault in either spelling, each time on the line of its own
token of that name. -/
theorem outcome_alike_of_second_declaration :
    let A : Nat → Token := fun line => ⟨.name, "A", line⟩
    let tokens : List Token :=
      [A 1, ⟨.is, "is", 1⟩, ⟨.shape .circle, "circle", 1⟩, ⟨.period, ".", 1⟩,
        A 2, ⟨.is, "is", 2⟩, ⟨.shape .square, "square", 2⟩, ⟨.period, ".", 2⟩]
    let others : List Token :=
      [A 9, ⟨.is, "IS", 8⟩, ⟨.shape .circle, "Circle", 7⟩, ⟨.period, "", 7⟩,
        A 6, ⟨.is, "Is", 5⟩, ⟨.shape .square, "SQUARE", 4⟩, ⟨.period, "", 4⟩]
    List.Forall₂ Token.Alike tokens others ∧
      ∃ (tree tree' : Program) (position : Nat) (token other : Token),
        parse tokens = .ok tree ∧ parse others = .ok tree' ∧
        tokens[position]? = some token ∧ others[position]? = some other ∧
        tree.paint = .error ⟨.alreadyDeclared "A", token.line⟩ ∧
        tree'.paint = .error ⟨.alreadyDeclared "A", other.line⟩ := by
  intro A tokens others
  have halike : List.Forall₂ Token.Alike tokens others := by decide +kernel
  have hnone : stuckAt? tokens = none := by decide +kernel
  have hcause : (match (parse tokens).bind paint with
      | .ok _ => none
      | .error fault => some fault.cause) = some (.alreadyDeclared "A") := by decide +kernel
  rcases outcome_alike halike with ⟨_, _, _, hstuck, -⟩ | ⟨tree, tree', htree, htree', hpaint⟩
  · rw [hnone] at hstuck
    cases hstuck
  · rw [htree, Except.bind] at hcause
    rcases hpaint with ⟨scene, hscene, -⟩ | ⟨cause, position, token, other, -, hfault⟩
    · rw [hscene] at hcause
      cases hcause
    · obtain ⟨htoken, hother, hpaint, hpaint'⟩ := hfault
      rw [hpaint] at hcause
      obtain rfl := Option.some.inj hcause
      exact ⟨halike, tree, tree', position, token, other, htree, htree', htoken, hother, hpaint,
        hpaint'⟩

end Program

end Tableau
