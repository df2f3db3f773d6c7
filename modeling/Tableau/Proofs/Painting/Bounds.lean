import Tableau.Proofs.Painting.Edits
import Tableau.Proofs.Painting.Explicit

/-!
# Positions stay inside the list

`Painting.Strict` paints as `Painting` does, but has no answer at all as soon as a position is used
that the list of shapes has not: to read a shape, to take one out, to put one in, or to enter a name
anew. Where the index is right it has the answer that painting has, clause by clause (`strict_step`)
and for whole runs (`strict_run`); so no position is ever outside of the list.

`Painting.Faithful` says all that the positions of a painting promise after some clauses: the index
has every name with its position and nothing else, and the last used position is that of the shape
that the last clause declared, placed or gave a value. It holds after whatever clauses of a program
are obeyed (`Program.positions_faithful`).
-/

namespace Tableau

namespace Painting

/-! ## Painting that stops outside of the list -/

namespace Strict

variable {α : Type}

/-- An answer, or none where a position outside of the list was used. -/
abbrev Answer := ExceptT Fault Option

def answer (found : Except Fault α) : Answer α := ExceptT.mk (some found)

/-- No answer: the position is outside of the list. -/
def outside : Answer α := ExceptT.mk none

def read (elements : List α) (position : Nat) : Answer α :=
  match elements[position]? with
  | some element => pure element
  | none => outside

/-- Take out the element at a position. -/
def remove (elements : List α) (position : Nat) : Answer (α × List α) := do
  return (← read elements position, elements.eraseIdx position)

/-- Put an element in at a position, at the latest behind the last one. -/
def insert (elements : List α) (position : Nat) (element : α) : Answer (List α) :=
  if position ≤ elements.length then pure (elements.insertIdx position element) else outside

def reindex (shapes : List Shape) (low high : Nat) (index : Std.TreeMap String Nat) :
    Answer (Std.TreeMap String Nat) :=
  (List.range' low (high + 1 - low)).foldlM
    (fun index position => do return index.insert (← read shapes position).name position) index

def move (painting : Painting) (i j : Nat) : Answer Painting := do
  let (shape, others) ← remove painting.shapes i
  let shapes ← insert others j shape
  let index ← reindex shapes (min i j) (max i j) painting.index
  return { painting with shapes := shapes, index := index }

def place (painting : Painting) (first : Token) (placement : Placement) (second : Token) :
    Answer Painting :=
  if first.text = second.text then
    throw ⟨.placedAtItself first.text, first.line⟩
  else do
    let i ← answer (painting.lookup first)
    let j ← answer (painting.lookup second)
    if misplaced placement i j then
      return { ← move painting i j with lastUsed := .shape j }
    else
      return { painting with lastUsed := .shape i }

def slot (painting : Painting) (owner : Owner) (attr : Attribute) (onBorder : Bool) :
    Answer (Except Cause (Slot × Nat)) :=
  match Slot.of? attr onBorder, owner with
  | none, _ => return .error .positionOfBorder
  | some slot, .canvas =>
    match Canvas.dimension? slot with
    | none => return .error .positionOfCanvas
    | some dimension => return .ok (slot, dimension)
  | some slot, .shape position => do
    return .ok (slot, (← read painting.shapes position).kind.dimension slot)

def write (painting : Painting) (owner : Owner) (slot : Slot) (value : Value) : Answer Painting :=
  match owner with
  | .canvas => return painting.write .canvas slot value
  | .shape position => do
    let _ ← read painting.shapes position
    return painting.write (.shape position) slot value

def assign (painting : Painting) (target : Target) (literal : Literal) : Answer Painting := do
  let owner ← answer (painting.owner target)
  let value ← answer literal.value
  let attr := target.attr
  let onBorder := target.area?.isSome
  match ← slot painting owner attr.kind onBorder with
  | .error cause => throw ⟨cause, attr.token.line⟩
  | .ok (slot, dimension) =>
    if value.dimension = dimension then
      write painting owner slot value
    else
      throw ⟨.wrongDimension attr.kind onBorder dimension value, literal.token.line⟩

def step (painting : Painting) : Clause → Answer Painting
  | .declare _ name shape => answer (painting.declare shape.kind name)
  | .place _ first placement second => place painting first placement.kind second
  | .assign _ target literal => assign painting target literal

def run (painting : Painting) (clauses : List Clause) : Answer Painting :=
  clauses.foldlM step painting

/-! ## Inside the list -/

theorem answer_ok_bind {β : Type} (a : α) (next : α → Answer β) :
    (answer (.ok a) >>= next) = next a := rfl

theorem answer_error_bind {β : Type} (fault : Fault) (next : α → Answer β) :
    (answer (.error fault) >>= next) = answer (.error fault) := rfl

theorem read_eq {elements : List α} {position : Nat} {element : α}
    (h : elements[position]? = some element) : read elements position = pure element := by
  unfold read
  rw [h]

theorem remove_eq {elements : List α} {position : Nat} {element : α}
    (h : elements[position]? = some element) :
    remove elements position = pure (element, elements.eraseIdx position) := by
  unfold remove
  rw [read_eq h, pure_bind]

theorem insert_eq {elements : List α} {position : Nat} (h : position ≤ elements.length)
    (element : α) : insert elements position element = pure (elements.insertIdx position element) :=
  if_pos h

/-- Names are entered at the positions in a range, of the shapes that stand there. -/
theorem range_zipIdx {shapes : List Shape} {low high : Nat} (h : high < shapes.length) :
    (shapes.zipIdx.take (high + 1)).drop low =
      (List.range' low (high + 1 - low)).map fun position =>
        (shapes.getD position default, position) := by
  refine List.ext_getElem? fun k => ?_
  rw [List.getElem?_drop, List.getElem?_take, List.getElem?_map, List.getElem?_zipIdx]
  by_cases hk : low + k < high + 1
  · have hshape := List.getElem?_eq_getElem (show low + k < shapes.length by omega)
    rw [if_pos hk, List.getElem?_range' (by omega), hshape]
    simp [List.getD_eq_getElem?_getD, hshape]
  · rw [if_neg hk, List.getElem?_eq_none (by rw [List.length_range']; omega)]
    rfl

theorem reindex_eq {shapes : List Shape} {low high : Nat} (h : high < shapes.length)
    (index : Std.TreeMap String Nat) :
    reindex shapes low high index = pure (Painting.reindex shapes low high index) := by
  have hrange : ∀ position ∈ List.range' low (high + 1 - low), position < shapes.length := by
    intro position hposition
    rw [List.mem_range'_1] at hposition
    omega
  unfold reindex Painting.reindex
  rw [range_zipIdx h, List.foldl_map]
  generalize List.range' low (high + 1 - low) = positions at hrange
  induction positions generalizing index with
  | nil => rfl
  | cons position positions ih =>
    obtain ⟨hposition, hpositions⟩ := List.forall_mem_cons.1 hrange
    have hshape := List.getElem?_eq_getElem hposition
    rw [List.foldlM_cons, read_eq hshape, pure_bind, pure_bind, ih _ hpositions, List.foldl_cons,
      List.getD_eq_getElem?_getD, hshape, Option.getD_some]

section Inside

variable {painting : Painting}

theorem move_eq {i j : Nat} (hi : i < painting.shapes.length) (hj : j < painting.shapes.length) :
    move painting i j = pure (painting.move i j) := by
  have hshape := List.getElem?_eq_getElem hi
  have hlength := List.length_eraseIdx_of_lt hi
  have hmoved : moved i j painting.shapes =
      (painting.shapes.eraseIdx i).insertIdx j painting.shapes[i] := by
    unfold moved
    rw [hshape]
  have hmax : max i j < (moved i j painting.shapes).length := by
    rw [length_moved hi hj]
    omega
  unfold move
  rw [remove_eq hshape, pure_bind]
  dsimp only
  rw [insert_eq (by omega), pure_bind, ← hmoved, reindex_eq hmax, pure_bind]
  rfl

theorem place_eq (h : Consistent painting) (first : Token) (placement : Placement)
    (second : Token) :
    place painting first placement second = answer (painting.place first placement second) := by
  unfold place Painting.place
  by_cases hsame : first.text = second.text
  · rw [if_pos hsame, if_pos hsame]
    rfl
  · rw [if_neg hsame, if_neg hsame]
    rcases h.lookup_cases first with ⟨i, shape, hi, -, hfirst⟩ | ⟨-, hfirst⟩
    · rcases h.lookup_cases second with ⟨j, other, hj, -, hsecond⟩ | ⟨-, hsecond⟩
      · obtain ⟨hilt, -⟩ := List.getElem?_eq_some_iff.1 hi
        obtain ⟨hjlt, -⟩ := List.getElem?_eq_some_iff.1 hj
        rw [hfirst, hsecond, answer_ok_bind, answer_ok_bind, move_eq hilt hjlt]
        by_cases hmisplaced : misplaced placement i j = true
        · rw [if_pos hmisplaced, pure_bind]
          simp only [bind, Except.bind, if_pos hmisplaced]
          rfl
        · rw [if_neg hmisplaced]
          simp only [bind, Except.bind, if_neg hmisplaced]
          rfl
      · rw [hfirst, hsecond, answer_ok_bind, answer_error_bind]
        rfl
    · rw [hfirst, answer_error_bind]
      rfl

theorem slot_eq {owner : Owner}
    (howner : ∀ position, owner = .shape position → position < painting.shapes.length)
    (attr : Attribute) (onBorder : Bool) :
    slot painting owner attr onBorder = pure (painting.slot owner attr onBorder) := by
  unfold slot Painting.slot
  cases Slot.of? attr onBorder with
  | none => rfl
  | some slot =>
    cases owner with
    | canvas =>
      simp only [dimension?]
      cases Canvas.dimension? slot <;> rfl
    | shape position =>
      have hshape := List.getElem?_eq_getElem (howner position rfl)
      simp only [dimension?, hshape, read_eq hshape, pure_bind, Option.map_some]

theorem write_eq {owner : Owner}
    (howner : ∀ position, owner = .shape position → position < painting.shapes.length)
    (slot : Slot) (value : Value) :
    write painting owner slot value = pure (painting.write owner slot value) := by
  cases owner with
  | canvas => rfl
  | shape position =>
    simp only [write, read_eq (List.getElem?_eq_getElem (howner position rfl)), pure_bind]

theorem assign_eq (h : Consistent painting) (target : Target) (literal : Literal) :
    assign painting target literal = answer (painting.assign target literal) := by
  unfold assign Painting.assign
  cases howner : painting.owner target with
  | error fault => rfl
  | ok owner =>
    have hlt : ∀ position, owner = .shape position → position < painting.shapes.length :=
      fun position hposition => h.owner_lt (hposition ▸ howner)
    cases literal.value with
    | error fault => rfl
    | ok value =>
      simp only [answer_ok_bind, slot_eq hlt, pure_bind]
      simp only [bind, Except.bind]
      cases painting.slot owner target.attr.kind target.area?.isSome with
      | error cause => rfl
      | ok entry =>
        by_cases hdimension : value.dimension = entry.2
        · simp only [if_pos hdimension, write_eq hlt]
          rfl
        · simp only [if_neg hdimension]
          rfl

end Inside

end Strict

section Strict

variable {painting : Painting}

/-- Every clause uses positions of the list only. -/
theorem Consistent.strict_step (h : Consistent painting) (clause : Clause) :
    Strict.step painting clause = Strict.answer (painting.step clause) := by
  cases clause with
  | declare => rfl
  | place _ first placement second => exact Strict.place_eq h first placement.kind second
  | assign _ target literal => exact Strict.assign_eq h target literal

/-- Every run uses positions of the list only. -/
theorem Consistent.strict_run (h : Consistent painting) (clauses : List Clause) :
    Strict.run painting clauses = Strict.answer (painting.run clauses) := by
  induction clauses generalizing painting with
  | nil => rfl
  | cons clause clauses ih =>
    unfold Strict.run
    rw [List.foldlM_cons, h.strict_step, run_cons]
    cases hstep : painting.step clause with
    | error fault => rfl
    | ok next => exact ih (h.step hstep)

end Strict

/-! ## The shape that a clause leaves behind -/

end Painting

/-- The shape that a clause is about, as the clause leaves it behind: as it was declared, as it was
before it was placed, or with its new value. Of the clauses before this one, and the shapes that
they lead to, the one that is assigned to is known by its name. -/
inductive Clause.Leaves (earlier : List Clause) (shapes : List Shape) : Clause → Shape → Prop
  | declare {token name : Token} {word : Leaf Shape.Kind} :
    Leaves earlier shapes (.declare token name word) (.declared word.kind name.text)
  | place {token first second : Token} {placement : Leaf Placement} {shape : Shape} :
    shape ∈ shapes → shape.name = first.text →
      Leaves earlier shapes (.place token first placement second) shape
  | assign {token start name : Token} {target : Target} {literal : Literal} {shape : Shape}
      {slot : Slot} {value : Value} :
    target.object?.or (nearestSubject? earlier) = some (.shape start name) →
      shape ∈ shapes → shape.name = name.text → literal.value = .ok value →
      Slot.of? target.attr.kind target.area?.isSome = some slot →
      Leaves earlier shapes (.assign token target literal) (shape.set value slot)

namespace Painting

/-- The positions of a painting are right after the clauses that were obeyed. -/
structure Faithful (painting : Painting) (obeyed : List Clause) : Prop where
  index : ∀ (name : String) (position : Nat), painting.index[name]? = some position ↔
    ∃ h : position < painting.shapes.length, painting.shapes[position].name = name
  names : (painting.shapes.map (·.name)).Nodup
  size : painting.index.size = painting.shapes.length
  lastUsed : ∀ position, painting.lastUsed = .shape position →
    ∃ h : position < painting.shapes.length, ∃ earlier last before,
      obeyed = earlier ++ [last] ∧ blank.run earlier = .ok before ∧
        last.Leaves earlier before.shapes painting.shapes[position]

section Faithful

variable {painting next : Painting} {earlier obeyed : List Clause}

/-- The index has as many names as there are shapes. -/
theorem Consistent.size_index (h : Consistent painting) :
    painting.index.size = painting.shapes.length := by
  have hperm : painting.index.keys.Perm (painting.shapes.map (·.name)) := by
    rw [List.perm_ext_iff_of_nodup Std.TreeMap.nodup_keys h.nodup_names]
    intro name
    rw [Std.TreeMap.mem_keys, h.mem_index_iff, List.mem_map]
  rw [← Std.TreeMap.length_keys, hperm.length_eq, List.length_map]

/-- After some clauses `its` refers to the nearest subject of them. -/
theorem RefersTo.run {before : List Clause} (h : painting.RefersTo (nearestSubject? before))
    (hconsistent : Consistent painting) {clauses : List Clause}
    (hrun : painting.run clauses = .ok next) :
    next.RefersTo (nearestSubject? (before ++ clauses)) := by
  induction clauses generalizing painting before with
  | nil =>
    cases hrun
    rwa [List.append_nil]
  | cons clause clauses ih =>
    obtain ⟨middle, hstep, hothers⟩ := run_cons_eq_ok hrun
    have hmiddle := h.step hconsistent hstep
    rw [← nearestSubject?_concat] at hmiddle
    have hnext := ih hmiddle (hconsistent.step hstep) hothers
    rwa [List.append_assoc, List.singleton_append] at hnext

/-- The last of some clauses that are obeyed is obeyed after the others. -/
theorem run_concat_eq_ok {clause : Clause}
    (h : painting.run (earlier ++ [clause]) = .ok next) :
    ∃ before, painting.run earlier = .ok before ∧ before.step clause = .ok next := by
  rw [run_append] at h
  cases hrun : painting.run earlier with
  | error fault => rw [hrun] at h; cases h
  | ok before =>
    rw [hrun] at h
    obtain ⟨last, hstep, hlast⟩ := run_cons_eq_ok h
    cases hlast
    exact ⟨before, rfl, hstep⟩

/-- The owner of an assignment stands under the name that the target says or that `its` stands
for. -/
theorem owner_shape_eq_ok (h : Consistent painting) {antecedent : Option Object}
    (hrefers : painting.RefersTo antecedent) {target : Target} {position : Nat}
    (howner : painting.owner target = .ok (.shape position)) :
    ∃ start name shape, target.object?.or antecedent = some (.shape start name) ∧
      painting.shapes[position]? = some shape ∧ shape.name = name.text := by
  have hwrite := hrefers.write howner .size ⟨[]⟩
  cases hobject : target.object?.or antecedent with
  | none => rw [hobject] at hwrite; cases hwrite
  | some object =>
    rw [hobject] at hwrite
    cases object with
    | canvas token => cases hwrite
    | shape start name =>
      obtain ⟨found, hfound, hlookup⟩ := hwrite
      cases hfound
      obtain ⟨shape, hshape, hname⟩ := (h.index _ _).1 (lookup_eq_ok.1 hlookup)
      exact ⟨start, name, shape, rfl, hshape, hname⟩

/-- The last used position is that of the shape that the clause leaves behind. -/
theorem leaves_of_step (h : Consistent painting)
    (hrefers : painting.RefersTo (nearestSubject? earlier)) {clause : Clause}
    (hstep : painting.step clause = .ok next) {position : Nat}
    (hused : next.lastUsed = .shape position) :
    ∃ shape, next.shapes[position]? = some shape ∧ clause.Leaves earlier painting.shapes shape := by
  cases clause with
  | declare token name word =>
    obtain ⟨-, rfl⟩ := declare_eq_ok hstep
    cases hused
    exact ⟨_, List.getElem?_concat_length, .declare⟩
  | place token first placement second =>
    obtain ⟨found, shape, hfound, hshape, hmem, hname⟩ := h.lastUsed_of_place hstep
    obtain rfl : found = position := Antecedent.shape.inj (hfound.symm.trans hused)
    exact ⟨shape, hshape, .place hmem hname⟩
  | assign token target literal =>
    obtain ⟨owner, value, slot, howner, hvalue, hslot, rfl⟩ := assign_eq_ok hstep
    cases owner with
    | canvas => cases hused
    | shape i =>
      obtain rfl : i = position := Antecedent.shape.inj hused
      obtain ⟨start, name, shape, hobject, hshape, hname⟩ := owner_shape_eq_ok h hrefers howner
      have hset : (painting.shapes.modify i (·.set value slot))[i]? =
          some (shape.set value slot) := by
        rw [List.getElem?_modify_eq, hshape]
        rfl
      have hmem := List.mem_of_getElem? hshape
      exact ⟨_, hset, .assign hobject hmem hname hvalue (slot_eq_ok hslot).1⟩

theorem faithful_of_run (h : blank.run obeyed = .ok painting) : painting.Faithful obeyed := by
  have hconsistent := consistent_blank.run h
  refine ⟨fun name position => ?_, hconsistent.nodup_names, hconsistent.size_index, ?_⟩
  · simp only [hconsistent.index, List.getElem?_eq_some_iff]
    constructor
    · rintro ⟨shape, ⟨hlt, rfl⟩, hname⟩
      exact ⟨hlt, hname⟩
    · rintro ⟨hlt, hname⟩
      exact ⟨_, ⟨hlt, rfl⟩, hname⟩
  · intro position hused
    rcases List.eq_nil_or_concat' obeyed with rfl | ⟨earlier, last, rfl⟩
    · cases h
      cases hused
    · obtain ⟨before, hbefore, hstep⟩ := run_concat_eq_ok h
      obtain ⟨shape, hshape, hleaves⟩ := leaves_of_step (consistent_blank.run hbefore)
        (refersTo_blank.run consistent_blank hbefore) hstep hused
      obtain ⟨hlt, rfl⟩ := List.getElem?_eq_some_iff.1 hshape
      exact ⟨hlt, earlier, last, before, rfl, hbefore, hleaves⟩

end Faithful

end Painting

/-- **Positions are right all along**: after whatever first clauses of a program are obeyed, the
index has every name with its position and nothing else, and the last used position is that of the
shape that the last clause left behind. No clause of a program uses a position that the list of
shapes has not. -/
theorem Program.positions_faithful (program : Program) :
    (∀ obeyed painting, obeyed <+: program.clauses → Painting.blank.run obeyed = .ok painting →
      painting.Faithful obeyed) ∧
    Painting.Strict.run .blank program.clauses =
      Painting.Strict.answer (Painting.blank.run program.clauses) :=
  ⟨fun _ _ _ hrun => Painting.faithful_of_run hrun,
    Painting.consistent_blank.strict_run program.clauses⟩

/-- The first of three shapes moves in front of the last one, which changes every position, and
`its` goes to it where it stands now. The clause behind that fails. -/
theorem Program.positions_faithful_of_far_move :
    let A : Token := ⟨.name, "A", 1⟩
    let B : Token := ⟨.name, "B", 1⟩
    let C : Token := ⟨.name, "C", 1⟩
    let D : Token := ⟨.name, "D", 3⟩
    let circle : Leaf Shape.Kind := ⟨⟨.shape .circle, "circle", 1⟩, .circle⟩
    let within : Token := ⟨.within, "in", 2⟩
    let its : Token := ⟨.its, "its", 2⟩
    let size : Leaf Attribute := ⟨⟨.attr .size, "size", 2⟩, .size⟩
    let five : Token := ⟨.number, "5", 2⟩
    let obeyed : List Clause := [.declare A A circle, .declare B B circle, .declare C C circle,
      .place A A ⟨within, .front⟩ C, .assign its (.implicit its size) (.number five five)]
    let program : Program := ⟨A, [⟨A, obeyed⟩, ⟨D, [.place D D ⟨within, .front⟩ A]⟩]⟩
    obeyed <+: program.clauses ∧ ∃ painting, Painting.blank.run obeyed = .ok painting ∧
      painting.Faithful obeyed ∧ painting.scene.names = ["B", "C", "A"] ∧
      painting.index["A"]? = some 2 ∧ painting.lastUsed = .shape 2 ∧
      Painting.Strict.run .blank program.clauses =
        Painting.Strict.answer (.error ⟨.undeclared "D", 3⟩) := by
  intro A B C D circle within its size five obeyed program
  have hfront : obeyed <+: program.clauses := ⟨[.place D D ⟨within, .front⟩ A], rfl⟩
  have hfound : (Painting.blank.run obeyed).toOption.map (fun painting =>
      (painting.scene.names, painting.index["A"]?, painting.lastUsed)) =
        some (["B", "C", "A"], some 2, .shape 2) := by decide +kernel
  have hfailed : (match Painting.blank.run program.clauses with
      | .ok _ => none
      | .error fault => some fault) = some ⟨.undeclared "D", 3⟩ := by decide +kernel
  obtain ⟨hfaithful, hstrict⟩ := positions_faithful program
  cases hrun : Painting.blank.run obeyed with
  | error fault => rw [hrun] at hfound; cases hfound
  | ok painting =>
    rw [hrun] at hfound
    obtain ⟨hnames, hindex, hused⟩ := by
      simpa only [Prod.mk.injEq] using Option.some.inj hfound
    cases hwhole : Painting.blank.run program.clauses with
    | ok final => rw [hwhole] at hfailed; cases hfailed
    | error fault =>
      rw [hwhole] at hfailed hstrict
      obtain rfl := Option.some.inj hfailed
      exact ⟨hfront, painting, rfl, hfaithful obeyed painting hfront hrun, hnames, hindex, hused,
        hstrict⟩

end Tableau
