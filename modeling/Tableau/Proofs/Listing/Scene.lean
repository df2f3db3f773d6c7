import Tableau.Proofs.Listing.Lines
import Tableau.Proofs.Source.Reachable
import Tableau.Scene.Listing

/-!
# The scene of a listing

The listing of a scene is a text of lines: five for the canvas, and six for each shape. A shape is
told by its lines, and by how many lines there are, how many shapes there are. So scenes with one
listing are the same scene, if no name has a line feed in it (`Scene.listing_injective`). No name of
a scene that a text paints has one.
-/

namespace Tableau

/-! ## Values -/

namespace Value

variable {attr : String}

/-- What stands in the line of an attribute. -/
def line (attr : String) (value : Value) : String := "- " ++ attr ++ ": " ++ value.text

theorem listingLine_eq (value : Value) : value.listingLine attr = value.line attr ++ "\n" := rfl

theorem line_injective : Function.Injective (line attr) :=
  fun _ _ h => text_injective ((String.append_right_inj _).1 h)

theorem line_inj {value value' : Value} : value.line attr = value'.line attr ↔ value = value' :=
  line_injective.eq_iff

theorem oneLine_line (hattr : OneLine attr) (value : Value) : OneLine (value.line attr) :=
  oneLine_append.2 ⟨oneLine_append.2 ⟨oneLine_append.2 ⟨by decide, hattr⟩, by decide⟩,
    value.oneLine_text⟩

end Value

/-! ## The canvas -/

namespace Canvas

def lines (canvas : Canvas) : List String :=
  ["Canvas", canvas.size.line "size", canvas.color.line "color",
    canvas.borderSize.line "border.size", canvas.borderColor.line "border.color"]

theorem listing_eq_unlines (canvas : Canvas) : canvas.listing = unlines canvas.lines := by
  simp only [listing, lines, Value.listingLine_eq, unlines, List.map_cons, List.map_nil,
    String.join_cons, String.join_nil, String.append_empty, String.append_assoc]
  rfl

theorem lines_injective : Function.Injective lines := by
  intro canvas canvas' h
  simp only [lines, List.cons.injEq, Value.line_inj] at h
  obtain ⟨-, hsize, hcolor, hborderSize, hborderColor, -⟩ := h
  exact Canvas.mk.injEq .. ▸ ⟨hsize, hcolor, hborderSize, hborderColor⟩

theorem oneLine_lines (canvas : Canvas) : ∀ line ∈ canvas.lines, OneLine line := by
  simp only [lines, List.forall_mem_cons]
  exact ⟨by decide, Value.oneLine_line (by decide) _, Value.oneLine_line (by decide) _,
    Value.oneLine_line (by decide) _, Value.oneLine_line (by decide) _, List.forall_mem_nil _⟩

end Canvas

/-! ## Shapes -/

namespace Shape

/-- The first line of a shape. -/
def heading (shape : Shape) : String := shape.kind.label ++ " \"" ++ shape.name ++ "\""

theorem heading_inj {shape shape' : Shape} (h : shape.heading = shape'.heading) :
    shape.kind = shape'.kind ∧ shape.name = shape'.name :=
  (labelled_inj shape.kind.isAlpha_label shape'.kind.isAlpha_label h).imp_left
    fun hlabel => Kind.label_injective hlabel

theorem oneLine_heading {shape : Shape} (hname : OneLine shape.name) : OneLine shape.heading := by
  have hlabel : OneLine shape.kind.label := fun hfeed => by
    cases shape.kind.isAlpha_label _ hfeed
  exact oneLine_append.2 ⟨oneLine_append.2 ⟨oneLine_append.2 ⟨hlabel, by decide⟩, hname⟩,
    by decide⟩

def lines (shape : Shape) : List String :=
  [shape.heading, shape.position.line "position", shape.size.line "size", shape.color.line "color",
    shape.borderSize.line "border.size", shape.borderColor.line "border.color"]

theorem listing_eq_unlines (shape : Shape) : shape.listing = unlines shape.lines := by
  simp only [listing, lines, heading, Value.listingLine_eq, unlines, List.map_cons, List.map_nil,
    String.join_cons, String.join_nil, String.append_empty, String.append_assoc]
  rfl

theorem lines_injective : Function.Injective lines := by
  intro shape shape' h
  simp only [lines, List.cons.injEq, Value.line_inj] at h
  obtain ⟨hheading, hposition, hsize, hcolor, hborderSize, hborderColor, -⟩ := h
  obtain ⟨hkind, hname⟩ := heading_inj hheading
  exact Shape.mk.injEq .. ▸ ⟨hkind, hname, hposition, hsize, hcolor, hborderSize, hborderColor⟩

theorem oneLine_lines {shape : Shape} (hname : OneLine shape.name) :
    ∀ line ∈ shape.lines, OneLine line := by
  simp only [lines, List.forall_mem_cons]
  exact ⟨oneLine_heading hname, Value.oneLine_line (by decide) _, Value.oneLine_line (by decide) _,
    Value.oneLine_line (by decide) _, Value.oneLine_line (by decide) _,
    Value.oneLine_line (by decide) _, List.forall_mem_nil _⟩

/-- Since all shapes have the same number of lines, it is seen where one ends. -/
theorem flatMap_lines_injective :
    Function.Injective fun shapes : List Shape => shapes.flatMap lines := by
  intro shapes shapes' h
  induction shapes generalizing shapes' with
  | nil =>
    cases shapes' with
    | nil => rfl
    | cons shape' shapes' => cases h
  | cons shape shapes ih =>
    cases shapes' with
    | nil => cases h
    | cons shape' shapes' =>
      obtain ⟨hlines, hrest⟩ := List.append_inj h rfl
      rw [lines_injective hlines, ih hrest]

end Shape

/-! ## Scenes -/

namespace Scene

variable {scene scene' : Scene}

def lines (scene : Scene) : List String := scene.canvas.lines ++ scene.shapes.flatMap Shape.lines

theorem listing_eq_unlines (scene : Scene) : scene.listing = unlines scene.lines := by
  rw [listing, lines, unlines_append, ← join_map_unlines, Canvas.listing_eq_unlines,
    funext Shape.listing_eq_unlines]

theorem lines_injective : Function.Injective lines := by
  intro scene scene' h
  obtain ⟨hcanvas, hshapes⟩ := List.append_inj h rfl
  rw [Scene.mk.injEq]
  exact ⟨Canvas.lines_injective hcanvas, Shape.flatMap_lines_injective hshapes⟩

theorem oneLine_lines (hnames : ∀ name ∈ scene.names, OneLine name) :
    ∀ line ∈ scene.lines, OneLine line := by
  refine List.forall_mem_append.2 ⟨scene.canvas.oneLine_lines, fun line hline => ?_⟩
  obtain ⟨shape, hshape, hmem⟩ := List.mem_flatMap.1 hline
  exact Shape.oneLine_lines (hnames _ (List.mem_map_of_mem hshape)) line hmem

/-- **A listing determines its scene**: scenes with one listing are the same, canvas and shapes with
all they hold, unless there is a line feed in a name. In no name of a scene that a text paints there
is one. -/
theorem listing_injective :
    (∀ scene scene' : Scene, (∀ name ∈ scene.names, '\n' ∉ name.toList) →
      (∀ name ∈ scene'.names, '\n' ∉ name.toList) → scene.listing = scene'.listing →
        scene = scene') ∧
    ∀ source scene, Source.scene source = .ok scene → ∀ name ∈ scene.names, '\n' ∉ name.toList := by
  constructor
  · intro scene scene' hnames hnames' h
    rw [listing_eq_unlines, listing_eq_unlines] at h
    exact lines_injective (unlines_injective (oneLine_lines hnames) (oneLine_lines hnames') h)
  · intro source scene hsource name hname
    exact ((written_iff.1 ⟨source, hsource⟩).2 name hname).oneLine

/-- Two texts of one picture; and a name with line feeds that hides a shape in itself. -/
theorem listing_injective_of_two_texts :
    let scene : Scene := ⟨.blank, [.declared .circle "A", .declared .square "B"]⟩
    let nested := "A\"\n- position: (0, 0)\n- size: (1)\n- color: (0, 0, 0)\n" ++
      "- border.size: (0)\n- border.color: (0, 0, 0)\nSquare \"B"
    let forged : Scene := ⟨.blank, [.declared .circle nested]⟩
    (∃ painted painted', Source.scene "B is square. A is circle. A is behind B." = .ok painted ∧
      Source.scene "A is circle. B is square." = .ok painted' ∧
      painted.listing = painted'.listing ∧ painted = painted') ∧
    scene.listing = forged.listing ∧ scene ≠ forged := by
  intro scene nested forged
  have hsource : Source.scene "B is square. A is circle. A is behind B." = .ok scene :=
    Token.eq_ok_of_toOption (by decide +kernel)
  have hsource' : Source.scene "A is circle. B is square." = .ok scene :=
    Token.eq_ok_of_toOption (by decide +kernel)
  refine ⟨⟨scene, scene, hsource, hsource', rfl, ?_⟩, by decide +kernel, by decide +kernel⟩
  obtain ⟨hinjective, hwritten⟩ := listing_injective
  exact hinjective _ _ (hwritten _ _ hsource) (hwritten _ _ hsource') rfl

end Scene

end Tableau
