import Tableau.Proofs.Painting.ByName
import Tableau.Proofs.Painting.Edits
import Tableau.Proofs.Painting.Numbers
import Tableau.Proofs.Program.Spans

/-!
# Checking a program without painting it

A program can be checked without a canvas and without shapes. `Declarations` is all that is to be
known at a clause: of which kind the declared names are, and what `its` refers to. Neither the paint
order nor any value is. `Declarations.faults` are all the rules that a clause breaks, in their order
of precedence, and `Program.check` is the first fault of the first clause that has one.

`Declarations.Describes` ties what is known to a painting. A clause that has faults fails with the
first of them, and behind one that has none the next declarations describe the next painting
(`Describes.step`). So the check finds what painting finds (`Program.check_decides`).
-/

namespace Tableau

/-! ## The check -/

/-- The dimension of what an attribute word addresses, on an object of whose size the dimension is
given. -/
def Attribute.dimension (attr : Attribute) (onBorder : Bool) (sizeDimension : Nat) : Nat :=
  match attr, onBorder with
  | .position, _ => 2
  | .color, _ => 3
  | .size, true => 1
  | .size, false => sizeDimension

namespace Token

/-- The numbers that are too large, in the order in which they are written. -/
def oversized (numbers : List Token) : List Token :=
  numbers.filter fun number => Numeral.read32? number.text = none

/-- What the numbers are that are not too large. -/
def legible (numbers : List Token) : List UInt32 :=
  numbers.filterMap fun number => Numeral.read32? number.text

end Token

namespace Literal

/-- How many numbers the value of a literal has, be they too large or not. -/
def arity : Literal → Nat
  | number .. => 1
  | tuple _ numbers => numbers.length
  | color .. => 3

/-- The value of a literal as far as its numbers are not too large. -/
def legible : Literal → Value
  | number _ digits => ⟨Token.legible [digits]⟩
  | tuple _ numbers => ⟨Token.legible numbers⟩
  | color _ word => word.kind.value

def faults (literal : Literal) : List Fault :=
  (Token.oversized literal.numbers).map fun number =>
    ⟨.numberTooLarge number.text, number.line⟩

end Literal

/-- What is known at a clause: the kind of every declared name, and what `its` refers to. -/
structure Declarations where
  kind? : String → Option Shape.Kind
  lastUsed : Referent

namespace Declarations

/-- In front of the first clause nothing is declared. -/
def initial : Declarations where
  kind? _ := none
  lastUsed := .nothing

def nameFaults (known : Declarations) (name : Token) : List Fault :=
  if known.kind? name.text = none then [⟨.undeclared name.text, name.line⟩] else []

/-- What a target goes to: what it names, or else what `its` refers to. -/
def referent (known : Declarations) (target : Target) : Referent :=
  match target.object? with
  | some (.canvas _) => .canvas
  | some (.shape _ name) => .shape name.text
  | none => known.lastUsed

def ownerFaults (known : Declarations) (target : Target) : List Fault :=
  match target.object? with
  | some (.canvas _) => []
  | some (.shape _ name) => known.nameFaults name
  | none =>
    if known.lastUsed = .nothing then [⟨.noAntecedent, target.token.line⟩] else []

/-- A border has no position, and the canvas has none. -/
def slotFaults (known : Declarations) (target : Target) : List Fault :=
  (if target.attr.kind = .position ∧ target.area?.isSome then
    [⟨.positionOfBorder, target.attr.token.line⟩] else []) ++
  (if target.attr.kind = .position ∧ known.referent target = .canvas then
    [⟨.positionOfCanvas, target.attr.token.line⟩] else [])

/-- The dimension of the size of an object, if it is known what that is. -/
def sizeDimension? (known : Declarations) : Referent → Option Nat
  | .nothing => none
  | .canvas => some 2
  | .shape name => (known.kind? name).map (·.sizeDimension)

def dimensionFaults (known : Declarations) (target : Target) (literal : Literal) : List Fault :=
  match known.sizeDimension? (known.referent target) with
  | none => []
  | some sizeDimension =>
    let onBorder := target.area?.isSome
    let expected := target.attr.kind.dimension onBorder sizeDimension
    if literal.arity = expected then []
    else [⟨.wrongDimension target.attr.kind onBorder expected literal.legible, literal.token.line⟩]

/-- Every rule that a clause breaks, in the order in which the rules go before each other. -/
def faults (known : Declarations) : Clause → List Fault
  | .declare _ name _ =>
    if known.kind? name.text = none then [] else [⟨.alreadyDeclared name.text, name.line⟩]
  | .place _ first _ second =>
    (if first.text = second.text then [⟨.placedAtItself first.text, first.line⟩] else []) ++
      known.nameFaults first ++ known.nameFaults second
  | .assign _ target literal =>
    known.ownerFaults target ++ literal.faults ++ known.slotFaults target ++
      known.dimensionFaults target literal

/-- What is known behind a clause. -/
def after (known : Declarations) : Clause → Declarations
  | .declare _ name word =>
    { kind? := fun other => if other = name.text then some word.kind else known.kind? other
      lastUsed := .shape name.text }
  | .place _ first _ _ => { known with lastUsed := .shape first.text }
  | .assign _ target _ => { known with lastUsed := known.referent target }

/-- The first fault of the first clause that has one. -/
def check (known : Declarations) : List Clause → Option Fault
  | [] => none
  | clause :: clauses => (known.faults clause).head?.or ((known.after clause).check clauses)

end Declarations

/-- The first fault of a program that is only checked. -/
def Program.check (program : Program) : Option Fault := Declarations.initial.check program.clauses

/-! ## Literals -/

/-- Numbers are read if none of them is too large, and else the first such one is at fault. -/
theorem Token.mapM_readNumber_cases (numbers : List Token) :
    (oversized numbers = [] ∧ numbers.mapM readNumber = .ok (legible numbers) ∧
        (legible numbers).length = numbers.length) ∨
      ∃ number, (oversized numbers).head? = some number ∧
        numbers.mapM readNumber = .error ⟨.numberTooLarge number.text, number.line⟩ := by
  induction numbers with
  | nil => exact .inl ⟨rfl, rfl, rfl⟩
  | cons number numbers ih =>
    rw [mapM_readNumber_cons, readNumber]
    unfold oversized legible
    cases hread : Numeral.read32? number.text with
    | none =>
      rw [List.filter_cons_of_pos (by simp [hread])]
      exact .inr ⟨number, rfl, rfl⟩
    | some n =>
      rw [List.filter_cons_of_neg (by simp [hread])]
      rcases ih with ⟨hsmall, hmap, hlength⟩ | ⟨first, hfirst, hmap⟩
      · have hlegible : (number :: numbers).filterMap (fun number =>
            Numeral.read32? number.text) = n :: legible numbers := by
          simp only [List.filterMap_cons, hread, legible]
        rw [hlegible, hmap]
        exact .inl ⟨hsmall, rfl, congrArg Nat.succ hlength⟩
      · rw [hmap]
        exact .inr ⟨first, hfirst, rfl⟩

/-- A literal has a value if none of its numbers is too large, and else the first of them is at
fault. -/
theorem Literal.value_cases (literal : Literal) :
    (literal.faults = [] ∧ literal.value = .ok literal.legible ∧
        literal.legible.dimension = literal.arity) ∨
      ∃ fault, literal.faults.head? = some fault ∧ literal.value = .error fault := by
  have htuple : ∀ (token : Token) (numbers : List Token),
      ((tuple token numbers).faults = [] ∧
        (tuple token numbers).value = .ok (tuple token numbers).legible ∧
        (tuple token numbers).legible.dimension = (tuple token numbers).arity) ∨
      ∃ fault, (tuple token numbers).faults.head? = some fault ∧
        (tuple token numbers).value = .error fault := by
    intro token numbers
    rcases Token.mapM_readNumber_cases numbers with ⟨hsmall, hmap, hlength⟩ | ⟨number, hfirst, hmap⟩
    · simp only [faults, value, Literal.numbers, hsmall, hmap]
      exact .inl ⟨rfl, rfl, hlength⟩
    · simp only [faults, value, Literal.numbers, List.head?_map, hfirst, hmap]
      exact .inr ⟨_, rfl, rfl⟩
  cases literal with
  | number token digits =>
    -- One number has the value that it has as a tuple by itself.
    have hvalue : (number token digits).value = (tuple token [digits]).value :=
      (value_of_numbers (.number _ _)).trans (value_of_numbers (.tuple _ _)).symm
    rw [hvalue]
    exact htuple token [digits]
  | tuple token numbers => exact htuple token numbers
  | color _ word => exact .inl ⟨rfl, rfl, word.kind.dimension_value⟩

/-! ## What is known describes the painting -/

namespace Declarations

/-- The declared names are those of the shapes, each with its kind, and `its` refers to the same
object. -/
structure Describes (known : Declarations) (painting : Painting) : Prop where
  kinds : ∀ (name : String) (kind : Shape.Kind), known.kind? name = some kind ↔
    ∃ shape ∈ painting.shapes, shape.name = name ∧ shape.kind = kind
  lastUsed : known.lastUsed = painting.referent

theorem describes_initial : initial.Describes .blank where
  kinds name kind := by simp [initial, Painting.blank]
  lastUsed := rfl

namespace Describes

variable {known : Declarations} {painting next : Painting}

theorem kind?_eq_none_iff (h : known.Describes painting) {name : String} :
    known.kind? name = none ↔ ∀ shape ∈ painting.shapes, shape.name ≠ name := by
  constructor
  · intro hnone shape hmem hname
    have hsome := (h.kinds name shape.kind).2 ⟨shape, hmem, hname, rfl⟩
    rw [hnone] at hsome
    cases hsome
  · intro hfresh
    cases hkind : known.kind? name with
    | none => rfl
    | some kind =>
      obtain ⟨shape, hmem, hname, -⟩ := (h.kinds name kind).1 hkind
      exact absurd hname (hfresh shape hmem)

theorem nameFaults_of_mem (h : known.Describes painting) {name : Token} {shape : Shape}
    (hmem : shape ∈ painting.shapes) (hname : shape.name = name.text) :
    known.nameFaults name = [] :=
  if_neg fun hnone => h.kind?_eq_none_iff.1 hnone shape hmem hname

theorem nameFaults_of_not_mem (h : known.Describes painting) {name : Token}
    (hfresh : ∀ shape ∈ painting.shapes, shape.name ≠ name.text) :
    known.nameFaults name = [⟨.undeclared name.text, name.line⟩] :=
  if_pos (h.kind?_eq_none_iff.2 hfresh)

end Describes

end Declarations

/-- The one thing that no attribute word addresses is the position of a border. -/
theorem Slot.of?_eq_none_iff {attr : Attribute} {onBorder : Bool} :
    Slot.of? attr onBorder = none ↔ attr = .position ∧ onBorder = true := by
  cases attr <;> cases onBorder <;> simp [Slot.of?]

namespace Painting

/-- The object that an assignment goes to, by name. -/
def referentOf (painting : Painting) : Owner → Referent
  | .canvas => .canvas
  | .shape position =>
    match painting.shapes[position]? with
    | some shape => .shape shape.name
    | none => .nothing

variable {painting next : Painting} {known : Declarations} {target : Target} {owner : Owner}

/-- What an attribute word addresses has the dimension that the attribute has on such an object. -/
theorem dimension?_of_attr {attr : Attribute} {onBorder : Bool} {slot : Slot} {sizeDimension : Nat}
    (hsize : painting.dimension? owner .size = some sizeDimension)
    (hslot : Slot.of? attr onBorder = some slot) (hposition : attr = .position → owner ≠ .canvas) :
    painting.dimension? owner slot = some (attr.dimension onBorder sizeDimension) := by
  cases owner with
  | canvas =>
    cases hsize
    cases attr <;> cases onBorder <;> cases hslot <;> first | rfl | exact absurd rfl (hposition rfl)
  | shape position =>
    obtain ⟨shape, hshape, rfl⟩ := Option.map_eq_some_iff.1 hsize
    simp only [dimension?, hshape, Option.map_some, Option.some.injEq]
    cases attr <;> cases onBorder <;> cases hslot <;> rfl

/-- Behind an assignment `its` refers to the object that it went to. -/
theorem referent_write (howner : ∀ position, owner = .shape position →
    position < painting.shapes.length) (slot : Slot) (value : Value) :
    (painting.write owner slot value).referent = painting.referentOf owner := by
  cases owner with
  | canvas => rfl
  | shape position =>
    have hshape := List.getElem?_eq_getElem (howner position rfl)
    simp [referent, referentOf, write, hshape]

/-- Behind a placement `its` refers to the first of its two shapes. -/
theorem referent_of_place (h : Consistent painting) {first second : Token}
    {placement : Placement} (hplace : painting.place first placement second = .ok next) :
    next.referent = .shape first.text := by
  obtain ⟨position, shape, hused, hshape, -, hname⟩ := h.lastUsed_of_place hplace
  simp only [referent, hused, hshape, hname]

/-- An edit that declares nothing keeps the names with their kinds. -/
theorem kinds_of_edit {scene changed : Scene} (h : scene.Edit none changed) (name : String)
    (kind : Shape.Kind) : (∃ shape ∈ changed.shapes, shape.name = name ∧ shape.kind = kind) ↔
      ∃ shape ∈ scene.shapes, shape.name = name ∧ shape.kind = kind := by
  cases h with
  | arrange hshapes => simp only [hshapes.mem_iff]
  | canvas => rfl
  | @shape position _ slot value =>
    simp only [List.mem_iff_getElem?, List.getElem?_modify]
    constructor
    · rintro ⟨shape, ⟨i, hi⟩, hname, hkind⟩
      obtain ⟨old, hold, rfl⟩ := Option.map_eq_some_iff.1 hi
      refine ⟨old, ⟨i, hold⟩, ?_⟩
      split at hname <;> simp_all
    · rintro ⟨old, ⟨i, hold⟩, hname, hkind⟩
      refine ⟨if position = i then old.set value slot else old, ⟨i, by simp [hold]⟩, ?_⟩
      split <;> simp_all

end Painting

/-- What it is for a clause to be judged: to fail at the first rule that it breaks, or else to be
obeyed and to leave a painting that what is known behind it describes. -/
def Declarations.Judged (known : Declarations) (painting : Painting) (clause : Clause) : Prop :=
  (∃ fault, (known.faults clause).head? = some fault ∧ painting.step clause = .error fault) ∨
    (known.faults clause = [] ∧ ∃ next, painting.step clause = .ok next ∧
      (known.after clause).Describes next)

namespace Declarations.Describes

open Painting

variable {known : Declarations} {painting next : Painting} {target : Target} {owner : Owner}

/-- The object of a target is found, and then it is the one that is known, or it is at fault. -/
theorem owner_cases (h : known.Describes painting) (hconsistent : Consistent painting)
    (target : Target) :
    (∃ fault, known.ownerFaults target = [fault] ∧ painting.owner target = .error fault) ∨
      (known.ownerFaults target = [] ∧ ∃ owner, painting.owner target = .ok owner ∧
        known.referent target = painting.referentOf owner) := by
  unfold ownerFaults Painting.owner Declarations.referent
  cases target.object? with
  | some object =>
    cases object with
    | canvas token => exact .inr ⟨rfl, .canvas, rfl, rfl⟩
    | shape token name =>
      rcases hconsistent.lookup_cases name with ⟨position, shape, hshape, hname, hlookup⟩ |
        ⟨hfresh, hlookup⟩
      · refine .inr ⟨h.nameFaults_of_mem (List.mem_of_getElem? hshape) hname, .shape position, ?_⟩
        simp only [hlookup, referentOf, hshape, hname]
        exact ⟨rfl, trivial⟩
      · refine .inl ⟨_, h.nameFaults_of_not_mem hfresh, ?_⟩
        simp only [hlookup]
        rfl
  | none =>
    simp only [h.lastUsed, Painting.referent]
    cases hused : painting.lastUsed with
    | nothing => exact .inl ⟨_, rfl, rfl⟩
    | canvas => exact .inr ⟨rfl, .canvas, rfl, rfl⟩
    | shape position =>
      have hshape := List.getElem?_eq_getElem (hconsistent.lastUsed position hused)
      simp only [hshape]
      exact .inr ⟨rfl, .shape position, rfl, by simp only [referentOf, hshape]⟩

/-- The dimension of the size of an object that is found. -/
theorem exists_sizeDimension (h : known.Describes painting)
    (howner : ∀ position, owner = .shape position → position < painting.shapes.length) :
    ∃ sizeDimension, known.sizeDimension? (painting.referentOf owner) = some sizeDimension ∧
      painting.dimension? owner .size = some sizeDimension := by
  cases owner with
  | canvas => exact ⟨2, rfl, rfl⟩
  | shape position =>
    have hlt := howner position rfl
    have hshape := List.getElem?_eq_getElem hlt
    have hkind := (h.kinds painting.shapes[position].name _).2 ⟨_, List.getElem_mem hlt, rfl, rfl⟩
    refine ⟨painting.shapes[position].kind.sizeDimension, ?_, ?_⟩
    · simp only [referentOf, hshape, sizeDimension?, hkind, Option.map_some]
    · simp only [dimension?, hshape, Option.map_some, Shape.Kind.dimension]

/-- The slot that a target addresses is one of its object and has the dimension that is known, or
the rule that it breaks is at fault. -/
theorem slot_cases (h : known.Describes painting)
    (howner : ∀ position, owner = .shape position → position < painting.shapes.length)
    (hreferent : known.referent target = painting.referentOf owner) :
    (∃ cause, (known.slotFaults target).head? = some ⟨cause, target.attr.token.line⟩ ∧
        painting.slot owner target.attr.kind target.area?.isSome = .error cause) ∨
      (known.slotFaults target = [] ∧ ∃ slot sizeDimension,
        known.sizeDimension? (known.referent target) = some sizeDimension ∧
        painting.slot owner target.attr.kind target.area?.isSome =
          .ok (slot, target.attr.kind.dimension target.area?.isSome sizeDimension)) := by
  have hcanvas : known.referent target = .canvas ↔ owner = .canvas := by
    rw [hreferent]
    cases owner with
    | canvas => exact ⟨fun _ => rfl, fun _ => rfl⟩
    | shape position => simp [referentOf, List.getElem?_eq_getElem (howner position rfl)]
  obtain ⟨sizeDimension, hknown, hsize⟩ := h.exists_sizeDimension howner
  rw [← hreferent] at hknown
  unfold slotFaults Painting.slot
  cases hslot : Slot.of? target.attr.kind target.area?.isSome with
  | none =>
    have hborder := Slot.of?_eq_none_iff.1 hslot
    rw [if_pos hborder]
    exact .inl ⟨.positionOfBorder, rfl, rfl⟩
  | some slot =>
    have hinside : ¬(target.attr.kind = .position ∧ target.area?.isSome = true) := fun hborder => by
      rw [Slot.of?_eq_none_iff.2 hborder] at hslot
      cases hslot
    rw [if_neg hinside, List.nil_append]
    by_cases hposition : target.attr.kind = .position ∧ known.referent target = .canvas
    · rw [if_pos hposition]
      obtain ⟨hattr, htarget⟩ := hposition
      obtain rfl := hcanvas.1 htarget
      obtain rfl : slot = .position := by
        cases harea : target.area?.isSome <;> rw [hattr, harea] at hslot <;> cases hslot
        rfl
      exact .inl ⟨.positionOfCanvas, rfl, rfl⟩
    · rw [if_neg hposition]
      have hdimension := dimension?_of_attr hsize hslot fun hattr howner =>
        hposition ⟨hattr, hcanvas.2 howner⟩
      exact .inr ⟨rfl, slot, sizeDimension, hknown, by simp only [hdimension]⟩

theorem declare (h : known.Describes painting) (hconsistent : Consistent painting)
    (token name : Token) (word : Leaf Shape.Kind) :
    Judged known painting (.declare token name word) := by
  unfold Judged
  simp only [Declarations.faults, Painting.step]
  rcases declare_cases painting word.kind name with ⟨hmem, hdeclare⟩ | ⟨hnew, hdeclare⟩
  · obtain ⟨shape, hshape, hname⟩ := hconsistent.mem_index_iff.1 hmem
    rw [if_neg fun hnone => h.kind?_eq_none_iff.1 hnone shape hshape hname]
    exact .inl ⟨_, rfl, hdeclare⟩
  · have hfresh : ∀ shape ∈ painting.shapes, shape.name ≠ name.text := fun shape hshape hname =>
      hnew (hconsistent.mem_index_iff.2 ⟨shape, hshape, hname⟩)
    rw [if_pos (h.kind?_eq_none_iff.2 hfresh)]
    refine .inr ⟨rfl, _, hdeclare, fun other kind => ?_, ?_⟩
    · simp only [after, List.mem_append, List.mem_singleton]
      by_cases hother : other = name.text
      · subst hother
        rw [if_pos rfl, Option.some.injEq]
        constructor
        · rintro rfl
          exact ⟨_, .inr rfl, rfl, rfl⟩
        · rintro ⟨shape, hold | rfl, hname, rfl⟩
          · exact absurd hname (hfresh shape hold)
          · rfl
      · rw [if_neg hother, h.kinds]
        constructor
        · rintro ⟨shape, hold, hshape⟩
          exact ⟨shape, .inl hold, hshape⟩
        · rintro ⟨shape, hold | rfl, hname, hkind⟩
          · exact ⟨shape, hold, hname, hkind⟩
          · exact absurd hname.symm hother
    · simp [after, Painting.referent, Shape.declared]

/-- A clause that declares nothing leaves the names with their kinds as they are. -/
theorem of_edit (h : known.Describes painting) {used : Referent}
    (hedit : painting.scene.Edit none next.scene) (hused : used = next.referent) :
    Describes { known with lastUsed := used } next where
  kinds name kind := (h.kinds name kind).trans (kinds_of_edit hedit name kind).symm
  lastUsed := hused

theorem place (h : known.Describes painting) (hconsistent : Consistent painting)
    (token first : Token) (placement : Leaf Placement) (second : Token) :
    Judged known painting (.place token first placement second) := by
  unfold Judged
  simp only [Declarations.faults, Painting.step]
  rcases place_cases hconsistent first placement.kind second with ⟨hsame, hplace⟩ |
    ⟨hsame, hnone, hplace⟩ | ⟨hsame, ⟨shape, hmem, hname⟩, hnone, hplace⟩ |
    ⟨hsame, i, j, shape, other, hi, hname, hj, hother, hplace⟩
  · rw [if_pos hsame]
    exact .inl ⟨_, rfl, hplace⟩
  · rw [if_neg hsame, h.nameFaults_of_not_mem hnone]
    exact .inl ⟨_, rfl, hplace⟩
  · rw [if_neg hsame, h.nameFaults_of_mem hmem hname, h.nameFaults_of_not_mem hnone]
    exact .inl ⟨_, rfl, hplace⟩
  · rw [if_neg hsame, h.nameFaults_of_mem (List.mem_of_getElem? hi) hname,
      h.nameFaults_of_mem (List.mem_of_getElem? hj) hother]
    refine .inr ⟨rfl, _, hplace, h.of_edit ?_ (referent_of_place hconsistent hplace).symm⟩
    have hstep : painting.step (.place token first placement second) = .ok _ := hplace
    exact edit_of_step hconsistent hstep

theorem assign (h : known.Describes painting) (hconsistent : Consistent painting)
    (token : Token) (target : Target) (literal : Literal) :
    Judged known painting (.assign token target literal) := by
  unfold Judged
  simp only [Declarations.faults, Painting.step]
  rcases h.owner_cases hconsistent target with ⟨fault, hfaults, howner⟩ |
    ⟨hfaults, owner, howner, hreferent⟩
  · refine .inl ⟨fault, by rw [hfaults]; rfl, ?_⟩
    simp only [Painting.assign, howner]
    rfl
  have hlt : ∀ position, owner = .shape position → position < painting.shapes.length :=
    fun position hposition => hconsistent.owner_lt (hposition ▸ howner)
  rw [hfaults, List.nil_append]
  rcases literal.value_cases with ⟨hsmall, hvalue, harity⟩ | ⟨fault, hfirst, hvalue⟩
  swap
  · refine .inl ⟨fault, by simp only [List.head?_append, hfirst, Option.some_or], ?_⟩
    simp only [Painting.assign, howner, hvalue]
    rfl
  rw [hsmall, List.nil_append]
  rcases h.slot_cases hlt hreferent with ⟨cause, hfirst, hslot⟩ |
    ⟨hslotFaults, slot, sizeDimension, hsize, hslot⟩
  · refine .inl ⟨⟨cause, target.attr.token.line⟩, ?_, ?_⟩
    · simp only [List.head?_append, hfirst, Option.some_or]
    · simp only [Painting.assign, howner, hvalue, bind, Except.bind, hslot]
  rw [hslotFaults, List.nil_append]
  simp only [dimensionFaults, hsize]
  by_cases hdimension : literal.arity =
      target.attr.kind.dimension target.area?.isSome sizeDimension
  · have hassign : painting.assign target literal =
        .ok (painting.write owner slot literal.legible) := by
      simp only [Painting.assign, howner, hvalue, bind, Except.bind, hslot]
      rw [if_pos (harity.trans hdimension)]
      rfl
    rw [if_pos hdimension]
    have hstep : painting.step (.assign token target literal) = .ok _ := hassign
    refine .inr ⟨rfl, _, hassign, h.of_edit ?_ ?_⟩
    · exact edit_of_step hconsistent hstep
    · rw [hreferent, referent_write hlt]
  · rw [if_neg hdimension]
    refine .inl ⟨_, rfl, ?_⟩
    simp only [Painting.assign, howner, hvalue, bind, Except.bind, hslot]
    rw [if_neg fun hequal => hdimension (harity.symm.trans hequal)]

/-- Every clause is judged by what is known. -/
theorem step (h : known.Describes painting) (hconsistent : Consistent painting) (clause : Clause) :
    Judged known painting clause := by
  cases clause with
  | declare token name word => exact h.declare hconsistent token name word
  | place token first placement second => exact h.place hconsistent token first placement second
  | assign token target literal => exact h.assign hconsistent token target literal

/-- The check finds the fault of a run, and nothing if the run has none. -/
theorem check_run (h : known.Describes painting) (hconsistent : Consistent painting)
    (clauses : List Clause) :
    (∃ fault, known.check clauses = some fault ∧ painting.run clauses = .error fault) ∨
      (known.check clauses = none ∧ ∃ final, painting.run clauses = .ok final) := by
  induction clauses generalizing known painting with
  | nil => exact .inr ⟨rfl, painting, rfl⟩
  | cons clause clauses ih =>
    rw [run_cons, check]
    rcases h.step hconsistent clause with ⟨fault, hfirst, hstep⟩ | ⟨hnone, next, hstep, hnext⟩
    · rw [hfirst, hstep]
      exact .inl ⟨fault, rfl, rfl⟩
    · rw [hnone, hstep]
      exact ih hnext (hconsistent.step hstep)

end Declarations.Describes

/-- **Checking finds what painting finds**: a program fails with a fault exactly if that is the
first fault of the check, and it is painted exactly if the check finds none. -/
theorem Program.check_decides (program : Program) :
    (∀ fault, program.paint = .error fault ↔ program.check = some fault) ∧
    ((∃ scene, program.paint = .ok scene) ↔ program.check = none) := by
  rcases Declarations.describes_initial.check_run Painting.consistent_blank program.clauses with
    ⟨found, hcheck, hrun⟩ | ⟨hcheck, final, hrun⟩
  · have hpaint : program.paint = .error found := by
      unfold paint
      rw [hrun]
      rfl
    simp only [check, hpaint, hcheck, Except.error.injEq, Option.some.injEq, reduceCtorEq,
      exists_false, implies_true, and_self]
  · have hpaint : program.paint = .ok final.scene := by
      unfold paint
      rw [hrun]
      rfl
    simp only [check, hpaint, hcheck, Except.ok.injEq, reduceCtorEq, exists_eq', implies_true,
      and_self]

end Tableau
