import Tableau.Scene.Document

/-!
# Nodes that hold documents

A format keeps a document as a node, number by number and field by field (`Document.fold`). If the
answers of that node are the parts of the document (`Document.Faithful`), then what is read from the
node of a scene's document is the scene (`Scene.ofNode?_document`). Nothing here depends on how a
format writes its nodes.
-/

namespace Tableau

namespace Document

/-- What holds of numbers and texts, and of every list and record that it holds of the parts of,
holds of every document. -/
theorem induction {motive : Document → Prop}
    (number : ∀ n, motive (.number n))
    (text : ∀ s, motive (.text s))
    (list : ∀ items, (∀ item ∈ items, motive item) → motive (.list items))
    (record : ∀ fields, (∀ field ∈ fields, motive field.2) → motive (.record fields)) :
    ∀ document, motive document :=
  @Document.rec motive (fun items => ∀ item ∈ items, motive item)
    (fun fields => ∀ field ∈ fields, motive field.2) (fun field => motive field.2)
    number text list record
    (List.forall_mem_nil _) (fun _ _ hitem hitems => List.forall_mem_cons.2 ⟨hitem, hitems⟩)
    (List.forall_mem_nil _) (fun _ _ hfield hfields => List.forall_mem_cons.2 ⟨hfield, hfields⟩)
    (fun _ _ h => h)

section Fold

variable {ν : Type} (number : UInt32 → ν) (text : String → ν) (list : List ν → ν)
  (record : List (String × ν) → ν)

mutual

/-- What numbers, texts, lists and records make of a document, from its leaves to its root. -/
def fold : Document → ν
  | .number n => number n
  | .text s => text s
  | .list items => list (foldItems items)
  | .record fields => record (foldFields fields)

def foldItems : List Document → List ν
  | [] => []
  | item :: items => fold item :: foldItems items

def foldFields : List (String × Document) → List (String × ν)
  | [] => []
  | (name, item) :: fields => (name, fold item) :: foldFields fields

end

theorem foldItems_eq_map (items : List Document) :
    foldItems number text list record items = items.map (fold number text list record) := by
  induction items with
  | nil => rfl
  | cons item items ih => rw [foldItems, ih, List.map_cons]

theorem foldFields_eq_map (fields : List (String × Document)) :
    foldFields number text list record fields =
      fields.map fun field => (field.1, fold number text list record field.2) := by
  induction fields with
  | nil => rfl
  | cons field fields ih => rw [foldFields, ih, List.map_cons]

theorem fold_list (items : List Document) :
    fold number text list record (.list items) =
      list (items.map (fold number text list record)) := by
  rw [fold, foldItems_eq_map]

theorem fold_record (fields : List (String × Document)) :
    fold number text list record (.record fields) =
      record (fields.map fun field => (field.1, fold number text list record field.2)) := by
  rw [fold, foldFields_eq_map]

end Fold

/-- Every text and every field name of the document satisfies `p`. -/
inductive AllTexts (p : String → Prop) : Document → Prop
  | number (n : UInt32) : AllTexts p (.number n)
  | text {s : String} : p s → AllTexts p (.text s)
  | list {items : List Document} : (∀ item ∈ items, AllTexts p item) → AllTexts p (.list items)
  | record {fields : List (String × Document)} : (∀ field ∈ fields, p field.1) →
      (∀ field ∈ fields, AllTexts p field.2) → AllTexts p (.record fields)

/-- The nodes that a function makes of documents answer with the parts of the documents. -/
structure Faithful {ν : Type} [DataNode ν] (node : Document → ν) : Prop where
  number : ∀ n, DataNode.number? (node (.number n)) = some n
  text : ∀ s, DataNode.text? (node (.text s)) = some s
  word : ∀ s, DataNode.word? (node (.text s)) = some s
  items : ∀ items, DataNode.items? (node (.list items)) = some (items.map node)
  fields : ∀ names items, names.Nodup → names.length = items.length →
    DataNode.fields? names (node (.record (names.zip items))) =
      some (items.map fun item => some (node item))

end Document

/-! ## Reading lists and fields -/

/-- If every element is answered with something, then so is the list. -/
theorem mapM_map_of_forall {α β γ : Type} {f : α → β} {answer : β → Option γ} {g : α → γ}
    {items : List α} (h : ∀ a ∈ items, answer (f a) = some (g a)) :
    (items.map f).mapM answer = some (items.map g) := by
  induction items with
  | nil => rfl
  | cons a items ih =>
    obtain ⟨ha, hitems⟩ := List.forall_mem_cons.1 h
    rw [List.map_cons, List.mapM_cons, ha, ih hitems]
    rfl

/-- Only one entry has the name of an entry, if the names are distinct. -/
theorem filter_name_eq {ν : Type} {entries : List (String × ν)} {entry : String × ν}
    (h : (entries.map Prod.fst).Nodup) (hentry : entry ∈ entries) :
    entries.filter (·.1 = entry.1) = [entry] := by
  induction entries with
  | nil => cases hentry
  | cons first entries ih =>
    obtain ⟨hfirst, hrest⟩ := List.nodup_cons.1 h
    rcases List.mem_cons.1 hentry with rfl | hmem
    · rw [List.filter_cons_of_pos (by exact decide_eq_true rfl)]
      congr 1
      apply List.filter_eq_nil_iff.2
      intro other hother hname
      exact hfirst (List.mem_map.2 ⟨other, hother, of_decide_eq_true hname⟩)
    · have hne : ¬ first.1 = entry.1 := by
        intro hname
        exact hfirst (hname ▸ List.mem_map_of_mem hmem)
      rw [List.filter_cons_of_neg (by simpa using hne)]
      exact ih hrest hmem

/-- Fields with distinct names are selected by their names. -/
theorem selectFields_zip {α ν : Type} {names : List String} {items : List α} (node : α → ν)
    (h : names.Nodup) (hlength : names.length = items.length) :
    selectFields names ((names.zip items).map fun field => (field.1, node field.2)) =
      some (items.map fun item => some (node item)) := by
  have hnames : names = (names.zip items).map Prod.fst :=
    (List.map_fst_zip (Nat.le_of_eq hlength)).symm
  have hitems : items = (names.zip items).map Prod.snd :=
    (List.map_snd_zip (Nat.le_of_eq hlength.symm)).symm
  generalize names.zip items = fields at hnames hitems
  subst hnames hitems
  rw [List.map_map]
  apply mapM_map_of_forall
  intro field hfield
  have hentry : (field.1, node field.2) ∈ fields.map fun field => (field.1, node field.2) :=
    List.mem_map.2 ⟨field, hfield, rfl⟩
  have honly := filter_name_eq (by rwa [List.map_map]) hentry
  rw [honly]
  rfl

/-! ## Scenes -/

section Scenes

variable {ν : Type} [DataNode ν] {node : Document → ν} (h : Document.Faithful node)

include h

theorem Value.ofNode?_document (value : Value) : ofNode? (node value.document) = some value := by
  have hnumbers : ((value.numbers.map Document.number).map node).mapM DataNode.number? =
      some (value.numbers.map id) := by
    rw [List.map_map]
    exact mapM_map_of_forall fun n _ => h.number n
  rw [List.map_id] at hnumbers
  simp only [ofNode?, document, h.items, hnumbers, Option.bind_eq_bind, Option.bind_some]
  rfl

theorem Canvas.ofNode?_document (canvas : Canvas) :
    ofNode? (node canvas.document) = some canvas := by
  have hfields := h.fields fieldNames
    [canvas.size.document, canvas.color.document, canvas.borderSize.document,
      canvas.borderColor.document] (by decide) rfl
  simp only [ofNode?, document, hfields, List.map_cons, List.map_nil, Value.ofNode?_document h,
    Option.bind_eq_bind, Option.bind_some]
  rfl

theorem Shape.ofNode?_document (shape : Shape) : ofNode? (node shape.document) = some shape := by
  have hfields := h.fields fieldNames
    [.text shape.kind.word, .text shape.name, shape.position.document, shape.size.document,
      shape.color.document, shape.borderSize.document, shape.borderColor.document] (by decide) rfl
  simp only [ofNode?, document, hfields, List.map_cons, List.map_nil, h.word, h.text,
    Shape.Kind.ofWord?_word, Value.ofNode?_document h, Option.bind_eq_bind, Option.bind_some]
  rfl

/-- What is read from the node of a scene's document is the scene. -/
theorem Scene.ofNode?_document (scene : Scene) : ofNode? (node scene.document) = some scene := by
  have hfields := h.fields fieldNames
    [scene.canvas.document, .list (scene.shapes.map Shape.document)] (by decide) rfl
  have hshapes : ((scene.shapes.map Shape.document).map node).mapM Shape.ofNode? =
      some (scene.shapes.map id) := by
    rw [List.map_map]
    exact mapM_map_of_forall fun shape _ => Shape.ofNode?_document h shape
  rw [List.map_id] at hshapes
  simp only [ofNode?, document, hfields, List.map_cons, List.map_nil, Canvas.ofNode?_document h,
    h.items, hshapes, Option.bind_eq_bind, Option.bind_some]
  rfl

end Scenes

/-! ## The texts of a scene -/

/-- A record has the texts of its fields' names and of its items. -/
theorem Document.AllTexts.zip {p : String → Prop} {names : List String} {items : List Document}
    (hnames : ∀ name ∈ names, p name) (hitems : ∀ item ∈ items, item.AllTexts p) :
    (Document.record (names.zip items)).AllTexts p := by
  apply Document.AllTexts.record
  · intro field hfield
    exact hnames _ (List.of_mem_zip hfield).1
  · intro field hfield
    exact hitems _ (List.of_mem_zip hfield).2

section Texts

variable {p : String → Prop}

theorem Value.allTexts_document (value : Value) : value.document.AllTexts p := by
  apply Document.AllTexts.list
  intro item hitem
  obtain ⟨n, -, rfl⟩ := List.mem_map.1 hitem
  exact .number n

theorem Canvas.allTexts_document (hfields : ∀ name ∈ fieldNames, p name) (canvas : Canvas) :
    canvas.document.AllTexts p := by
  apply Document.AllTexts.zip hfields
  simp only [List.forall_mem_cons, Value.allTexts_document, List.not_mem_nil, false_imp_iff,
    implies_true, and_true]

theorem Shape.allTexts_document (hfields : ∀ name ∈ fieldNames, p name)
    (hkinds : ∀ kind : Shape.Kind, p kind.word) {shape : Shape} (hname : p shape.name) :
    shape.document.AllTexts p := by
  apply Document.AllTexts.zip hfields
  simp only [List.forall_mem_cons, Value.allTexts_document, List.not_mem_nil, false_imp_iff,
    implies_true, and_true]
  exact ⟨.text (hkinds shape.kind), .text hname⟩

/-- The texts of a scene's document are the names of fields, the words of kinds and the names of the
shapes. -/
theorem Scene.allTexts_document
    (hfields : ∀ name ∈ fieldNames ++ Canvas.fieldNames ++ Shape.fieldNames, p name)
    (hkinds : ∀ kind : Shape.Kind, p kind.word) {scene : Scene}
    (hnames : ∀ name ∈ scene.names, p name) : scene.document.AllTexts p := by
  obtain ⟨⟨hscene, hcanvas⟩, hshape⟩ := (List.forall_mem_append.1 hfields).imp_left
    List.forall_mem_append.1
  apply Document.AllTexts.zip hscene
  refine List.forall_mem_cons.2 ⟨Canvas.allTexts_document hcanvas scene.canvas, ?_⟩
  refine List.forall_mem_singleton.2 (.list fun item hitem => ?_)
  obtain ⟨shape, hmem, rfl⟩ := List.mem_map.1 hitem
  exact Shape.allTexts_document hshape hkinds (hnames _ (List.mem_map_of_mem hmem))

end Texts

end Tableau
