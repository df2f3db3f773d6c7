import Tableau.Source.Session

/-!
# What a session keeps

After some pieces a session has `kept` the text of those that could be run. That text paints a
scene, unless it is empty (`Source.paints_kept`), and each piece is run behind what the pieces
before it have left (`Source.getElem?_session`). A piece that fails leaves no trace: without the
failing pieces the others end as they did, and the text that is kept is the same
(`Source.session_acceptedPieces`).
-/

namespace Tableau.Source

variable {accepted piece : String}

/-! ## One piece -/

theorem sessionStep_of_scene {result : Scene} (h : scene (extend accepted piece) = .ok result) :
    sessionStep accepted piece = (extend accepted piece, .ok result) := by
  rw [sessionStep, h]

theorem sessionStep_of_fault {fault : Fault} (h : scene (extend accepted piece) = .error fault) :
    sessionStep accepted piece = (accepted, .error fault) := by
  rw [sessionStep, h]

/-- Whether a piece is accepted or not, its outcome is that of the whole text. -/
theorem sessionStep_outcome (accepted piece : String) :
    (sessionStep accepted piece).2 = scene (extend accepted piece) := by
  cases h : scene (extend accepted piece) with
  | ok result => rw [sessionStep_of_scene h]
  | error fault => rw [sessionStep_of_fault h]

/-- The text is empty or paints a scene. -/
def Paints (accepted : String) : Prop := accepted = "" ∨ ∃ result, scene accepted = .ok result

theorem Paints.sessionStep (h : Paints accepted) (piece : String) :
    Paints (sessionStep accepted piece).1 := by
  cases hscene : scene (extend accepted piece) with
  | ok result =>
    rw [sessionStep_of_scene hscene]
    exact .inr ⟨result, hscene⟩
  | error fault =>
    rw [sessionStep_of_fault hscene]
    exact h

/-! ## Several pieces -/

/-- The text that is kept after some pieces. -/
def kept (accepted : String) (pieces : List String) : String :=
  pieces.foldl (fun text piece => (sessionStep text piece).1) accepted

theorem kept_cons (accepted piece : String) (pieces : List String) :
    kept accepted (piece :: pieces) = kept (sessionStep accepted piece).1 pieces := rfl

theorem Paints.kept (h : Paints accepted) (pieces : List String) :
    Paints (kept accepted pieces) := by
  induction pieces generalizing accepted with
  | nil => exact h
  | cons piece pieces ih => exact ih (h.sessionStep piece)

/-- What a session has accepted always paints a scene, unless it is empty. -/
theorem paints_kept (pieces : List String) : Paints (kept "" pieces) :=
  Paints.kept (.inl rfl) pieces

theorem sessionFrom_cons (accepted piece : String) (pieces : List String) :
    sessionFrom accepted (piece :: pieces) =
      scene (extend accepted piece) :: sessionFrom (sessionStep accepted piece).1 pieces := by
  rw [← sessionStep_outcome]
  rfl

/-- A session goes on with the text that is kept, and has no other memory. -/
theorem sessionFrom_append (accepted : String) (pieces more : List String) :
    sessionFrom accepted (pieces ++ more) =
      sessionFrom accepted pieces ++ sessionFrom (kept accepted pieces) more := by
  induction pieces generalizing accepted with
  | nil => rfl
  | cons piece pieces ih =>
    rw [List.cons_append, sessionFrom_cons, sessionFrom_cons, ih, List.cons_append]
    rfl

theorem getElem?_sessionFrom (accepted : String) (pieces : List String) (position : Nat) :
    (sessionFrom accepted pieces)[position]? = pieces[position]?.map fun piece =>
      scene (extend (kept accepted (pieces.take position)) piece) := by
  induction pieces generalizing accepted position with
  | nil => rfl
  | cons piece pieces ih =>
    rw [sessionFrom_cons]
    cases position with
    | zero => rfl
    | succ position =>
      rw [List.getElem?_cons_succ, List.getElem?_cons_succ, ih, List.take_succ_cons]
      rfl

/-- Each piece is run behind the text that the pieces before it have left. -/
theorem getElem?_session (pieces : List String) (position : Nat) :
    (session pieces)[position]? = pieces[position]?.map fun piece =>
      scene (extend (kept "" (pieces.take position)) piece) :=
  getElem?_sessionFrom "" pieces position

/-! ## Accepted pieces -/

/-- The pieces that can be run when it is their turn. -/
def acceptedPieces (accepted : String) : List String → List String
  | [] => []
  | piece :: pieces =>
    if (scene (extend accepted piece)).isOk then
      piece :: acceptedPieces (extend accepted piece) pieces
    else acceptedPieces accepted pieces

section Accepted

variable {result : Scene} {fault : Fault} (pieces : List String)

theorem acceptedPieces_of_scene (h : scene (extend accepted piece) = .ok result) :
    acceptedPieces accepted (piece :: pieces) =
      piece :: acceptedPieces (extend accepted piece) pieces := by
  rw [acceptedPieces, h]
  rfl

theorem acceptedPieces_of_fault (h : scene (extend accepted piece) = .error fault) :
    acceptedPieces accepted (piece :: pieces) = acceptedPieces accepted pieces := by
  rw [acceptedPieces, h]
  rfl

/-- The text that is kept is that of the accepted pieces, one line behind the other. -/
theorem kept_eq_foldl_extend (accepted : String) :
    kept accepted pieces = (acceptedPieces accepted pieces).foldl extend accepted := by
  induction pieces generalizing accepted with
  | nil => rfl
  | cons piece pieces ih =>
    cases h : scene (extend accepted piece) with
    | ok result =>
      rw [kept_cons, sessionStep_of_scene h, acceptedPieces_of_scene pieces h, List.foldl_cons, ih]
    | error fault => rw [kept_cons, sessionStep_of_fault h, acceptedPieces_of_fault pieces h, ih]

theorem kept_acceptedPieces (accepted : String) :
    kept accepted (acceptedPieces accepted pieces) = kept accepted pieces := by
  induction pieces generalizing accepted with
  | nil => rfl
  | cons piece pieces ih =>
    cases h : scene (extend accepted piece) with
    | ok result =>
      rw [acceptedPieces_of_scene pieces h, kept_cons, kept_cons, sessionStep_of_scene h, ih]
    | error fault =>
      rw [acceptedPieces_of_fault pieces h, kept_cons, sessionStep_of_fault h, ih]

theorem sessionFrom_acceptedPieces (accepted : String) :
    sessionFrom accepted (acceptedPieces accepted pieces) =
      (sessionFrom accepted pieces).filter (·.isOk) := by
  induction pieces generalizing accepted with
  | nil => rfl
  | cons piece pieces ih =>
    cases h : scene (extend accepted piece) with
    | ok result =>
      rw [acceptedPieces_of_scene pieces h, sessionFrom_cons, sessionFrom_cons,
        sessionStep_of_scene h, h, ih]
      rfl
    | error fault =>
      rw [acceptedPieces_of_fault pieces h, sessionFrom_cons, sessionStep_of_fault h, h, ih]
      rfl

end Accepted

/-- **A piece that fails leaves no trace**: a session of the accepted pieces alone has the outcomes
of the whole session but for the faults, and it keeps the same text. -/
theorem session_acceptedPieces (pieces : List String) :
    session (acceptedPieces "" pieces) = (session pieces).filter (·.isOk) ∧
      kept "" (acceptedPieces "" pieces) = kept "" pieces :=
  ⟨sessionFrom_acceptedPieces pieces "", kept_acceptedPieces pieces ""⟩

end Tableau.Source
