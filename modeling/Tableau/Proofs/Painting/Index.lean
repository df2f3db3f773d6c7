import Tableau.Painting
import Std.Data.TreeMap.Lemmas

/-!
# The index of a painting

A painting knows the position of every name twice over: the shapes stand at their positions, and the
index holds the positions by name. `Painting.Consistent` says that the two agree and that the last
used position is one of the list. It holds of the blank painting and every clause keeps it
(`Consistent.step`, `Consistent.run`), so a name is found at one position only and no position is
outside the list.

The step that could break it is the move, which enters only some of the names anew. `origin i j k`
is the position from which the element now at `k` came; between the two ends of the move it is off
by one and elsewhere it is `k` itself (`getElem?_moved`).
-/

namespace Tableau

namespace Painting

/-! ## Where a move takes the elements of a list -/

section Moved

variable {α : Type} {elements : List α} {i j k : Nat}

/-- The position from which the element at position `k` came when the one at `i` moved to `j`. -/
def origin (i j k : Nat) : Nat :=
  if k = j then i
  else if i ≤ k ∧ k < j then k + 1
  else if j < k ∧ k ≤ i then k - 1
  else k

/-- The move back undoes the move. -/
theorem origin_origin : origin i j (origin j i k) = k := by
  unfold origin
  repeat' split
  all_goals omega

theorem origin_inj {a b : Nat} (h : origin i j a = origin i j b) : a = b := by
  rw [← origin_origin (i := j) (j := i) (k := a), h, origin_origin]

/-- A move shuffles the positions between its two ends among themselves. -/
theorem origin_mem_range : (min i j ≤ origin i j k ∧ origin i j k ≤ max i j) ↔
    (min i j ≤ k ∧ k ≤ max i j) := by
  unfold origin
  repeat' split
  all_goals omega

/-- Outside of its two ends a move changes nothing. -/
theorem origin_of_not_mem (h : ¬(min i j ≤ k ∧ k ≤ max i j)) : origin i j k = k := by
  unfold origin
  repeat' split
  all_goals omega

@[simp] theorem origin_self : origin i j j = i := by
  simp [origin]

theorem length_moved (hi : i < elements.length) (hj : j < elements.length) :
    (moved i j elements).length = elements.length := by
  have hlength := List.length_eraseIdx_of_lt hi
  simp only [moved, List.getElem?_eq_getElem hi]
  rw [List.length_insertIdx_of_le_length (by omega)]
  omega

/-- What stands at a position after a move. -/
theorem getElem?_moved (hi : i < elements.length) (hj : j < elements.length) :
    (moved i j elements)[k]? = elements[origin i j k]? := by
  have hlength := List.length_eraseIdx_of_lt hi
  simp only [moved, List.getElem?_eq_getElem hi]
  rw [List.getElem?_insertIdx]
  by_cases hkj : k = j
  · subst hkj
    have hle : k ≤ (elements.eraseIdx i).length := by omega
    simp [hle]
  · unfold origin
    simp only [hkj, if_false, List.getElem?_eraseIdx]
    repeat' split
    all_goals first
      | rfl
      | omega
      | congr 1; omega

/-- What stands at a position of a list with one more element. -/
theorem getElem?_concat_eq_some {last element : α} :
    (elements ++ [last])[k]? = some element ↔
      elements[k]? = some element ∨ k = elements.length ∧ last = element := by
  rcases Nat.lt_trichotomy k elements.length with hlt | rfl | hgt
  · rw [List.getElem?_append_left hlt]
    simp [Nat.ne_of_lt hlt]
  · simp
  · rw [List.getElem?_eq_none (by simp; omega), List.getElem?_eq_none (by omega)]
    simp [Nat.ne_of_gt hgt]

end Moved

/-! ## Entering names anew -/

/-- An entry of a list with its position, between two positions. -/
theorem mem_range_zipIdx {shapes : List Shape} {low high position : Nat} {shape : Shape} :
    (shape, position) ∈ (shapes.zipIdx.take (high + 1)).drop low ↔
      low ≤ position ∧ position ≤ high ∧ shapes[position]? = some shape := by
  rw [List.mem_iff_getElem?]
  simp only [List.getElem?_drop, List.getElem?_take, List.getElem?_zipIdx]
  constructor
  · rintro ⟨n, hn⟩
    split at hn
    · obtain ⟨s, hs, heq⟩ := Option.map_eq_some_iff.1 hn
      obtain ⟨rfl, rfl⟩ := Prod.mk.inj heq
      exact ⟨by omega, by omega, by simpa using hs⟩
    · cases hn
  · rintro ⟨hlow, hhigh, hs⟩
    refine ⟨position - low, ?_⟩
    have hposition : low + (position - low) = position := by omega
    rw [hposition, if_pos (by omega), hs]
    simp

/-- Of entries that give no name two positions, the index holds all, and what it held before under
the other names. -/
theorem getElem?_enter {entries : List (Shape × Nat)}
    (hfun : ∀ e ∈ entries, ∀ e' ∈ entries, e.1.name = e'.1.name → e.2 = e'.2)
    (index : Std.TreeMap String Nat) (name : String) (position : Nat) :
    (entries.foldl (fun index entry => index.insert entry.1.name entry.2) index)[name]? =
        some position ↔
      (∃ shape, (shape, position) ∈ entries ∧ shape.name = name) ∨
        (∀ e ∈ entries, e.1.name ≠ name) ∧ index[name]? = some position := by
  induction entries generalizing index with
  | nil => simp
  | cons entry entries ih =>
    rw [List.foldl_cons, ih fun e he e' he' =>
      hfun e (List.mem_cons_of_mem _ he) e' (List.mem_cons_of_mem _ he')]
    rw [Std.TreeMap.getElem?_insert]
    by_cases hname : entry.1.name = name
    · simp only [hname, Std.ReflCmp.compare_self, if_true, Option.some.injEq]
      constructor
      · rintro (⟨shape, hmem, hshape⟩ | ⟨-, rfl⟩)
        · exact .inl ⟨shape, List.mem_cons_of_mem _ hmem, hshape⟩
        · exact .inl ⟨entry.1, List.mem_cons_self, hname⟩
      · rintro (⟨shape, hmem, hshape⟩ | ⟨hne, -⟩)
        · have hposition : entry.2 = position :=
            hfun entry List.mem_cons_self _ hmem (hname.trans hshape.symm)
          by_cases hother : ∃ e ∈ entries, e.1.name = name
          · obtain ⟨e, he, hename⟩ := hother
            have : e.2 = position := hfun e (List.mem_cons_of_mem _ he) _ hmem
              (hename.trans hshape.symm)
            exact .inl ⟨e.1, this ▸ he, hename⟩
          · exact .inr ⟨fun e he h => hother ⟨e, he, h⟩, hposition⟩
        · exact absurd hname (hne entry List.mem_cons_self)
    · have hcompare : compare entry.1.name name ≠ .eq := fun h =>
        hname (Std.LawfulEqCmp.eq_of_compare h)
      simp only [hcompare, if_false, List.mem_cons, forall_eq_or_imp, hname, ne_eq,
        not_false_eq_true, true_and]
      constructor
      · rintro (⟨shape, hmem, hshape⟩ | h)
        · exact .inl ⟨shape, .inr hmem, hshape⟩
        · exact .inr h
      · rintro (⟨shape, rfl | hmem, hshape⟩ | h)
        · exact absurd hshape hname
        · exact .inl ⟨shape, hmem, hshape⟩
        · exact .inr h

/-! ## The invariant -/

/-- The index holds every name with its position and nothing else, and the last used position is
one of the list. -/
structure Consistent (painting : Painting) : Prop where
  index : ∀ (name : String) (position : Nat), painting.index[name]? = some position ↔
    ∃ shape, painting.shapes[position]? = some shape ∧ shape.name = name
  lastUsed : ∀ position, painting.lastUsed = .shape position →
    position < painting.shapes.length

theorem consistent_blank : Consistent blank where
  index name position := by simp [blank]
  lastUsed position h := by simp [blank] at h

namespace Consistent

variable {painting : Painting}

/-- No two positions have shapes of one name. -/
theorem position_eq (h : Consistent painting) {i j : Nat} {shape other : Shape}
    (hi : painting.shapes[i]? = some shape) (hj : painting.shapes[j]? = some other)
    (hname : shape.name = other.name) : i = j := by
  have hi' := (h.index shape.name i).2 ⟨shape, hi, rfl⟩
  have hj' := (h.index shape.name j).2 ⟨other, hj, hname.symm⟩
  exact Option.some.inj (hi'.symm.trans hj')

theorem nodup_names (h : Consistent painting) : (painting.shapes.map (·.name)).Nodup := by
  rw [List.Nodup, List.pairwise_map, List.pairwise_iff_getElem]
  intro i j hi hj hij hname
  have := h.position_eq (List.getElem?_eq_getElem hi) (List.getElem?_eq_getElem hj) hname
  omega

theorem mem_index_iff (h : Consistent painting) {name : String} :
    name ∈ painting.index ↔ ∃ shape ∈ painting.shapes, shape.name = name := by
  rw [Std.TreeMap.mem_iff_isSome_getElem?, Option.isSome_iff_exists]
  constructor
  · rintro ⟨position, hposition⟩
    obtain ⟨shape, hshape, hname⟩ := (h.index _ _).1 hposition
    exact ⟨shape, List.mem_of_getElem? hshape, hname⟩
  · rintro ⟨shape, hmem, hname⟩
    obtain ⟨position, hposition⟩ := List.mem_iff_getElem?.1 hmem
    exact ⟨position, (h.index _ _).2 ⟨shape, hposition, hname⟩⟩

/-- A lookup finds the position of the shape that bears the name, if there is one. -/
theorem lookup_cases (h : Consistent painting) (name : Token) :
    (∃ position shape, painting.shapes[position]? = some shape ∧ shape.name = name.text ∧
        painting.lookup name = .ok position) ∨
      (∀ shape ∈ painting.shapes, shape.name ≠ name.text) ∧
        painting.lookup name = .error ⟨.undeclared name.text, name.line⟩ := by
  unfold lookup
  cases hindex : painting.index[name.text]? with
  | some position =>
    obtain ⟨shape, hshape, hname⟩ := (h.index _ _).1 hindex
    exact .inl ⟨position, shape, hshape, hname, rfl⟩
  | none =>
    refine .inr ⟨fun shape hmem hname => ?_, rfl⟩
    have hmem' := h.mem_index_iff.2 ⟨shape, hmem, hname⟩
    rw [Std.TreeMap.mem_iff_isSome_getElem?, hindex] at hmem'
    cases hmem'

/-! ## Every clause keeps it -/

theorem declare (h : Consistent painting) {name : Token} (kind : Shape.Kind)
    (hnew : name.text ∉ painting.index) :
    Consistent { painting with
      shapes := painting.shapes ++ [.declared kind name.text]
      index := painting.index.insert name.text painting.shapes.length
      lastUsed := .shape painting.shapes.length } where
  index other position := by
    rw [Std.TreeMap.getElem?_insert]
    by_cases hname : name.text = other
    · subst hname
      simp only [Std.ReflCmp.compare_self, if_true, Option.some.injEq]
      constructor
      · rintro rfl
        exact ⟨.declared kind name.text, by simp, rfl⟩
      · rintro ⟨shape, hshape, hname⟩
        rcases getElem?_concat_eq_some.1 hshape with hold | ⟨hlast, -⟩
        · exact absurd (h.mem_index_iff.2 ⟨shape, List.mem_of_getElem? hold, hname⟩) hnew
        · exact hlast.symm
    · have hcompare : compare name.text other ≠ .eq := fun h' =>
        hname (Std.LawfulEqCmp.eq_of_compare h')
      simp only [hcompare, if_false, h.index]
      constructor
      · rintro ⟨shape, hshape, rfl⟩
        exact ⟨shape, getElem?_concat_eq_some.2 (.inl hshape), rfl⟩
      · rintro ⟨shape, hshape, rfl⟩
        rcases getElem?_concat_eq_some.1 hshape with hold | ⟨-, rfl⟩
        · exact ⟨shape, hold, rfl⟩
        · exact absurd rfl hname
  lastUsed position hposition := by
    cases hposition
    simp

theorem move (h : Consistent painting) {i j : Nat} (hi : i < painting.shapes.length)
    (hj : j < painting.shapes.length) : Consistent { painting.move i j with lastUsed := .shape j } where
  index name position := by
    have hentries : ∀ e ∈ ((moved i j painting.shapes).zipIdx.take (max i j + 1)).drop (min i j),
        min i j ≤ e.2 ∧ e.2 ≤ max i j ∧ painting.shapes[origin i j e.2]? = some e.1 := by
      rintro ⟨shape, k⟩ he
      obtain ⟨hlow, hhigh, hshape⟩ := mem_range_zipIdx.1 he
      exact ⟨hlow, hhigh, by rwa [getElem?_moved hi hj] at hshape⟩
    simp only [Painting.move, reindex]
    rw [getElem?_enter, h.index, getElem?_moved hi hj]
    · constructor
      · rintro (⟨shape, hmem, hname⟩ | ⟨hne, shape, hshape, hname⟩)
        · exact ⟨shape, (hentries _ hmem).2.2, hname⟩
        · -- A position between the ends would have been entered under another position.
          have hout : ¬(min i j ≤ position ∧ position ≤ max i j) := by
            intro hin
            have hback : (moved i j painting.shapes)[origin j i position]? = some shape := by
              rw [getElem?_moved hi hj, origin_origin, hshape]
            have hrange := (origin_mem_range (i := j) (j := i) (k := position)).2
              ⟨by omega, by omega⟩
            exact hne (shape, origin j i position)
              (mem_range_zipIdx.2 ⟨by omega, by omega, hback⟩) hname
          rw [origin_of_not_mem hout]
          exact ⟨shape, hshape, hname⟩
      · rintro ⟨shape, hshape, hname⟩
        by_cases hin : min i j ≤ position ∧ position ≤ max i j
        · exact .inl ⟨shape, mem_range_zipIdx.2 ⟨hin.1, hin.2, by rwa [getElem?_moved hi hj]⟩, hname⟩
        · refine .inr ⟨?_, shape, by rwa [origin_of_not_mem hin] at hshape, hname⟩
          intro e he hename
          obtain ⟨hlow, hhigh, he'⟩ := hentries e he
          have := h.position_eq he' hshape (hename.trans hname.symm)
          rw [← origin_inj this] at hin
          exact hin ⟨hlow, hhigh⟩
    · intro e he e' he' hname
      exact origin_inj (h.position_eq (hentries e he).2.2 (hentries e' he').2.2 hname)
  lastUsed position hposition := by
    cases hposition
    simpa [Painting.move, length_moved hi hj] using hj

theorem write (h : Consistent painting) {owner : Owner}
    (howner : ∀ position, owner = .shape position → position < painting.shapes.length)
    (slot : Slot) (value : Value) : Consistent (painting.write owner slot value) := by
  cases owner with
  | canvas => exact ⟨h.index, fun position hposition => nomatch hposition⟩
  | shape i =>
    refine ⟨fun name position => ?_, fun position hposition => ?_⟩
    · simp only [Painting.write, List.getElem?_modify, h.index]
      constructor
      · rintro ⟨shape, hshape, hname⟩
        refine ⟨if i = position then shape.set value slot else shape, by simp [hshape], ?_⟩
        split
        · rw [Shape.name_set, hname]
        · exact hname
      · rintro ⟨shape, hshape, hname⟩
        obtain ⟨old, hold, rfl⟩ := Option.map_eq_some_iff.1 hshape
        refine ⟨old, hold, ?_⟩
        split at hname
        · rwa [Shape.name_set] at hname
        · exact hname
    · cases hposition
      simpa [Painting.write] using howner i rfl

end Consistent

/-! ## Runs -/

theorem run_cons (painting : Painting) (clause : Clause) (clauses : List Clause) :
    painting.run (clause :: clauses) =
      (painting.step clause).bind fun next => next.run clauses := List.foldlM_cons

/-- Clauses that are obeyed are obeyed one at a time. -/
theorem run_cons_eq_ok {painting next : Painting} {clause : Clause} {clauses : List Clause}
    (h : painting.run (clause :: clauses) = .ok next) :
    ∃ middle, painting.step clause = .ok middle ∧ middle.run clauses = .ok next := by
  rw [run_cons] at h
  cases hstep : painting.step clause with
  | error fault => rw [hstep] at h; cases h
  | ok middle => exact ⟨middle, rfl, by rwa [hstep] at h⟩

/-- Clauses one behind the other are obeyed one behind the other. -/
theorem run_append (painting : Painting) (first second : List Clause) :
    painting.run (first ++ second) = (painting.run first).bind fun next => next.run second :=
  List.foldlM_append

/-! ## What a clause can do -/

section Outcomes

variable {painting next : Painting}

theorem declare_cases (painting : Painting) (kind : Shape.Kind) (name : Token) :
    (name.text ∈ painting.index ∧
        painting.declare kind name = .error ⟨.alreadyDeclared name.text, name.line⟩) ∨
      (name.text ∉ painting.index ∧
        painting.declare kind name = .ok { painting with
          shapes := painting.shapes ++ [.declared kind name.text]
          index := painting.index.insert name.text painting.shapes.length
          lastUsed := .shape painting.shapes.length }) := by
  unfold declare
  by_cases h : name.text ∈ painting.index
  · exact .inl ⟨h, if_pos h⟩
  · exact .inr ⟨h, if_neg h⟩

/-- A placement fails on equal names, then at the first unknown name; otherwise it moves the first
shape to the position of the second one, unless it is on the right side already. -/
theorem place_cases (h : Consistent painting) (first : Token) (placement : Placement)
    (second : Token) :
    (first.text = second.text ∧
        painting.place first placement second =
          .error ⟨.placedAtItself first.text, first.line⟩) ∨
      (first.text ≠ second.text ∧ (∀ shape ∈ painting.shapes, shape.name ≠ first.text) ∧
        painting.place first placement second =
          .error ⟨.undeclared first.text, first.line⟩) ∨
      (first.text ≠ second.text ∧ (∃ shape ∈ painting.shapes, shape.name = first.text) ∧
        (∀ shape ∈ painting.shapes, shape.name ≠ second.text) ∧
        painting.place first placement second =
          .error ⟨.undeclared second.text, second.line⟩) ∨
      (first.text ≠ second.text ∧ ∃ i j shape other,
        painting.shapes[i]? = some shape ∧ shape.name = first.text ∧
        painting.shapes[j]? = some other ∧ other.name = second.text ∧
        painting.place first placement second = .ok
          (if misplaced placement i j then { painting.move i j with lastUsed := .shape j }
          else { painting with lastUsed := .shape i })) := by
  unfold place
  by_cases hsame : first.text = second.text
  · exact .inl ⟨hsame, if_pos hsame⟩
  · simp only [if_neg hsame]
    rcases h.lookup_cases first with ⟨i, shape, hi, hname, hfirst⟩ | ⟨hnone, hfirst⟩
    · rcases h.lookup_cases second with ⟨j, other, hj, hother, hsecond⟩ | ⟨hnone, hsecond⟩
      · refine .inr (.inr (.inr ⟨hsame, i, j, shape, other, hi, hname, hj, hother, ?_⟩))
        simp only [hfirst, hsecond, bind, Except.bind]
        split <;> rfl
      · refine .inr (.inr (.inl ⟨hsame, ⟨shape, List.mem_of_getElem? hi, hname⟩, hnone, ?_⟩))
        simp only [hfirst, hsecond, bind, Except.bind]
    · refine .inr (.inl ⟨hsame, hnone, ?_⟩)
      simp only [hfirst, bind, Except.bind]

theorem declare_eq_ok {kind : Shape.Kind} {name : Token}
    (h : painting.declare kind name = .ok next) :
    name.text ∉ painting.index ∧ next = { painting with
      shapes := painting.shapes ++ [.declared kind name.text]
      index := painting.index.insert name.text painting.shapes.length
      lastUsed := .shape painting.shapes.length } := by
  rcases declare_cases painting kind name with ⟨-, herror⟩ | ⟨hnew, hok⟩
  · rw [herror] at h
    cases h
  · rw [hok] at h
    exact ⟨hnew, (Except.ok.inj h).symm⟩

/-- A placement that is obeyed has found its two shapes. -/
theorem Consistent.place_eq_ok (h : Consistent painting) {first second : Token}
    {placement : Placement} (hplace : painting.place first placement second = .ok next) :
    ∃ i j shape, painting.shapes[i]? = some shape ∧ shape.name = first.text ∧
      j < painting.shapes.length ∧ next =
        if misplaced placement i j then { painting.move i j with lastUsed := .shape j }
        else { painting with lastUsed := .shape i } := by
  rcases place_cases h first placement second with
    ⟨-, herror⟩ | ⟨-, -, herror⟩ | ⟨-, -, -, herror⟩ |
    ⟨-, i, j, shape, other, hi, hname, hj, -, hok⟩
  · simp [herror] at hplace
  · simp [herror] at hplace
  · simp [herror] at hplace
  · obtain ⟨hjlt, -⟩ := List.getElem?_eq_some_iff.1 hj
    rw [hok] at hplace
    exact ⟨i, j, shape, hi, hname, hjlt, (Except.ok.inj hplace).symm⟩

/-- Behind a placement the last used position is that of the first of its two shapes. -/
theorem Consistent.lastUsed_of_place (h : Consistent painting) {first second : Token}
    {placement : Placement} (hplace : painting.place first placement second = .ok next) :
    ∃ position shape, next.lastUsed = .shape position ∧ next.shapes[position]? = some shape ∧
      shape ∈ painting.shapes ∧ shape.name = first.text := by
  obtain ⟨i, j, shape, hi, hname, hjlt, rfl⟩ := h.place_eq_ok hplace
  have hmem := List.mem_of_getElem? hi
  split
  · -- The shape stands at the position of the other one now.
    obtain ⟨hilt, -⟩ := List.getElem?_eq_some_iff.1 hi
    have hat : (moved i j painting.shapes)[j]? = some shape := by
      rw [getElem?_moved hilt hjlt, origin_self, hi]
    exact ⟨j, shape, rfl, hat, hmem, hname⟩
  · exact ⟨i, shape, rfl, hi, hmem, hname⟩

/-- A slot that is found is the one that the attribute word means, and one of its owner. -/
theorem slot_eq_ok {owner : Owner} {attr : Attribute} {onBorder : Bool} {slot : Slot}
    {dimension : Nat} (h : painting.slot owner attr onBorder = .ok (slot, dimension)) :
    Slot.of? attr onBorder = some slot ∧ painting.dimension? owner slot = some dimension := by
  unfold Painting.slot at h
  split at h
  · cases h
  · next found hfound =>
    split at h
    · cases h
    · next dimension hdimension =>
      cases h
      exact ⟨hfound, hdimension⟩

/-- An assignment that is obeyed has found its object, read its value, and found the value to be of
the dimension of the slot. -/
theorem assign_eq_ok {target : Target} {literal : Literal}
    (h : painting.assign target literal = .ok next) :
    ∃ owner value slot, painting.owner target = .ok owner ∧ literal.value = .ok value ∧
      painting.slot owner target.attr.kind target.area?.isSome = .ok (slot, value.dimension) ∧
      next = painting.write owner slot value := by
  unfold assign at h
  cases howner : painting.owner target with
  | error fault => simp [howner, bind, Except.bind] at h
  | ok owner =>
    cases hvalue : literal.value with
    | error fault => simp [howner, hvalue, bind, Except.bind] at h
    | ok value =>
      simp only [howner, hvalue, bind, Except.bind] at h
      split at h
      · cases h
      · next slot dimension hslot =>
        split at h
        · next hdimension =>
          cases h
          exact ⟨owner, value, slot, rfl, rfl, hdimension ▸ hslot, rfl⟩
        · cases h

/-- The owner of an assignment is the canvas or stands in the list. -/
theorem Consistent.owner_lt (h : Consistent painting) {target : Target} {position : Nat}
    (howner : painting.owner target = .ok (.shape position)) :
    position < painting.shapes.length := by
  unfold owner at howner
  split at howner
  · cases howner
  · next name _ =>
    rcases h.lookup_cases name with ⟨i, shape, hi, -, hlookup⟩ | ⟨-, hlookup⟩
    · simp only [hlookup, bind, Except.bind, pure, Except.pure, Except.ok.injEq,
        Owner.shape.injEq] at howner
      obtain ⟨hlt, -⟩ := List.getElem?_eq_some_iff.1 hi
      rwa [← howner]
    · simp [hlookup, bind, Except.bind] at howner
  · split at howner
    · cases howner
    · next hused =>
      cases howner
      exact h.lastUsed _ hused
    · cases howner

/-- Every clause keeps the index right. -/
theorem Consistent.step (h : Consistent painting) {clause : Clause}
    (hstep : painting.step clause = .ok next) : Consistent next := by
  cases clause with
  | declare token name shape =>
    obtain ⟨hnew, rfl⟩ := declare_eq_ok hstep
    exact h.declare shape.kind hnew
  | place token first placement second =>
    obtain ⟨i, j, shape, hi, -, hjlt, rfl⟩ := h.place_eq_ok hstep
    obtain ⟨hilt, -⟩ := List.getElem?_eq_some_iff.1 hi
    split
    · exact h.move hilt hjlt
    · exact ⟨h.index, fun position hposition => by cases hposition; exact hilt⟩
  | assign token target literal =>
    obtain ⟨owner, value, slot, howner, -, -, rfl⟩ := assign_eq_ok hstep
    exact h.write (fun position hposition => h.owner_lt (hposition ▸ howner)) slot value

/-- Every sequence of clauses keeps the index right. -/
theorem Consistent.run (h : Consistent painting) {clauses : List Clause}
    (hrun : painting.run clauses = .ok next) : Consistent next := by
  induction clauses generalizing painting with
  | nil =>
    cases hrun
    exact h
  | cons clause clauses ih =>
    obtain ⟨middle, hstep, hothers⟩ := run_cons_eq_ok hrun
    exact ih (h.step hstep) hothers

end Outcomes

end Painting

/-- A program that is painted has clauses that are obeyed. -/
theorem Program.run_of_paint {program : Program} {scene : Scene}
    (h : program.paint = .ok scene) :
    ∃ final, Painting.blank.run program.clauses = .ok final ∧ final.scene = scene := by
  unfold paint at h
  cases hrun : Painting.blank.run program.clauses with
  | error fault => rw [hrun] at h; cases h
  | ok final =>
    rw [hrun] at h
    exact ⟨final, rfl, Except.ok.inj h⟩

/-- A program that cannot be painted has clauses that cannot be obeyed. -/
theorem Program.run_of_paint_eq_error {program : Program} {fault : Fault}
    (h : program.paint = .error fault) : Painting.blank.run program.clauses = .error fault := by
  unfold paint at h
  cases hrun : Painting.blank.run program.clauses with
  | error found =>
    rw [hrun] at h
    exact congrArg Except.error (Except.error.inj h)
  | ok painting =>
    rw [hrun] at h
    cases h

end Tableau
