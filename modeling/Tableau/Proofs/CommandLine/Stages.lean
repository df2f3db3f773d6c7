import Tableau.CommandLine.Execute
import Tableau.Proofs.CommandLine.Files
import Tableau.Proofs.Token.Scan

/-!
# A run stops at the stage that is asked for

What a run emits needs some of the stages: tokens need scanning, a tree needs parsing too, and a
scene needs all three. If one of these fails the run ends with code 1 and the fault of the first
stage that fails, whatever is emitted, in whatever form and to whatever place; nothing goes to
standard output and no file or folder is touched. If they succeed no later stage can fail the run:
the text goes to standard output, or to the file that is asked for (`run_stops_at_stage`).

`Source.FailsIn` and `Emit.Produces` say what the stages do with a program text, one constructor for
each stage, and exactly one of them applies (`Emit.render_cases`).
-/

namespace Tableau

/-- The first stage that fails on a program text, and its fault. -/
inductive Source.FailsIn (source : String) : Stage → Fault → Prop
  | scanning {fault : Fault} (hscan : Source.tokens source = .error fault) :
    FailsIn source .scanning fault
  | parsing {tokens : List Token} {fault : Fault} (hscan : Source.tokens source = .ok tokens)
      (hparse : Program.parse tokens = .error fault) :
    FailsIn source .parsing fault
  | painting {tokens : List Token} {tree : Program} {fault : Fault}
      (hscan : Source.tokens source = .ok tokens) (hparse : Program.parse tokens = .ok tree)
      (hpaint : tree.paint = .error fault) :
    FailsIn source .painting fault

namespace CommandLine

namespace Emit

/-- Whether a stage has to succeed for something to be emitted. -/
def needs : Emit → Stage → Bool
  | tokens, stage => stage = .scanning
  | tree, stage => stage = .scanning ∨ stage = .parsing
  | scene, _ => true

/-- The text that is emitted where the stages that are needed succeed. -/
inductive Produces (format : Format) (source : String) : Emit → String → Prop
  | tokens {found : List Token} (hscan : Source.tokens source = .ok found) :
    Produces format source .tokens (Token.listing found)
  | tree {found : List Token} {tree : Program} (hscan : Source.tokens source = .ok found)
      (hparse : Program.parse found = .ok tree) :
    Produces format source .tree tree.outline.text
  | scene {found : List Token} {tree : Program} {scene : Scene}
      (hscan : Source.tokens source = .ok found) (hparse : Program.parse found = .ok tree)
      (hpaint : tree.paint = .ok scene) :
    Produces format source .scene (scene.render format)

variable {emit : Emit} {format : Format} {source text : String} {stage : Stage} {fault : Fault}

theorem render_of_failsIn (h : Source.FailsIn source stage fault)
    (hneeds : emit.needs stage = true) : emit.render format source = .error fault := by
  have hprogram : ∀ found, Source.tokens source = .ok found →
      Source.program source = Program.parse found := fun found => Source.program_of_tokens
  cases h with
  | scanning hscan =>
    have hfail : Source.program source = .error fault := by
      unfold Source.program
      rw [hscan]
      rfl
    cases emit with
    | tokens => simp only [render, hscan]; rfl
    | tree => simp only [render, hfail]; rfl
    | scene => simp only [render, Source.scene, hfail]; rfl
  | parsing hscan hparse =>
    have hfail : Source.program source = .error fault := (hprogram _ hscan).trans hparse
    cases emit with
    | tokens => cases hneeds
    | tree => simp only [render, hfail]; rfl
    | scene => simp only [render, Source.scene, hfail]; rfl
  | painting hscan hparse hpaint =>
    have htree : Source.program source = .ok _ := (hprogram _ hscan).trans hparse
    cases emit with
    | tokens => cases hneeds
    | tree => cases hneeds
    | scene => simp only [render, Source.scene_of_program htree, hpaint]; rfl

theorem render_of_produces (h : emit.Produces format source text) :
    emit.render format source = .ok text := by
  cases h with
  | tokens hscan => simp only [render, hscan]; rfl
  | tree hscan hparse =>
    simp only [render, (Source.program_of_tokens hscan).trans hparse]
    rfl
  | scene hscan hparse hpaint =>
    have htree := (Source.program_of_tokens hscan).trans hparse
    simp only [render, Source.scene_of_program htree, hpaint]
    rfl

/-- Either a stage that is needed fails or there is a text. -/
theorem render_cases (emit : Emit) (format : Format) (source : String) :
    (∃ stage fault, emit.needs stage = true ∧ Source.FailsIn source stage fault) ∨
      ∃ text, emit.Produces format source text := by
  cases hscan : Source.tokens source with
  | error fault => exact .inl ⟨.scanning, fault, by cases emit <;> rfl, .scanning hscan⟩
  | ok found =>
    cases hparse : Program.parse found with
    | error fault =>
      cases emit with
      | tokens => exact .inr ⟨_, .tokens hscan⟩
      | tree => exact .inl ⟨.parsing, fault, rfl, .parsing hscan hparse⟩
      | scene => exact .inl ⟨.parsing, fault, rfl, .parsing hscan hparse⟩
    | ok tree =>
      cases emit with
      | tokens => exact .inr ⟨_, .tokens hscan⟩
      | tree => exact .inr ⟨_, .tree hscan hparse⟩
      | scene =>
        cases hpaint : tree.paint with
        | error fault => exact .inl ⟨.painting, fault, rfl, .painting hscan hparse hpaint⟩
        | ok scene => exact .inr ⟨_, .scene hscan hparse hpaint⟩

end Emit

/-! ## Reading and writing in the model of the machine -/

/-- The bytes of a text encode the text. -/
theorem textOfBytes_toUTF8 (text : String) : textOfBytes text.toUTF8 = .ok text := by
  have hvalid : text.toUTF8.IsValidUTF8 := text.isValidUTF8
  unfold textOfBytes
  rw [String.fromUTF8?, dif_pos hvalid]
  rfl

namespace World

/-- The text of the program file, or of standard input. -/
def program (world : World) (file : String) : Except Failure String :=
  if file = "-" then (textOfBytes world.input).mapError .input
  else (world.files.read (.ofText file)).mapError (.reading file)

/-- The form of the scene: that of the options, or else of the settings. -/
def format (world : World) (options : Options) : Format :=
  options.format.getD ((Settings.ofFile? world.settings).getD .default).format

/-- Creating the folders above a file and then writing the file. -/
def save (world : World) (file text : String) : Except SystemError Unit × World :=
  match world.files.createFolders (Path.ofText file).parent with
  | (files, .error error) => (.error error, { world with files })
  | (files, .ok ()) =>
    match files.write (.ofText file) text with
    | .error error => (.error error, { world with files })
    | .ok files => (.ok (), { world with files })

variable {world after : World} {file text : String}

/-- Nothing is changed when the program is read. -/
theorem readProgram_eq (world : World) (file : String) :
    readProgram host file world = (world.program file, world) := by
  unfold readProgram program
  by_cases h : file = "-"
  · rw [if_pos h, if_pos h]
    rfl
  · rw [if_neg h, if_neg h]
    rfl

/-- One action behind another. -/
theorem bind_apply {α β : Type} {action : StateM World α} {a : α} (h : action world = (a, after))
    (next : α → StateM World β) : (action >>= next) world = next a after := by
  show (fun answer => next answer.1 answer.2) (action world) = _
  rw [h]

theorem modifyGet_apply {α : Type} (change : World → α × World) (world : World) :
    (modifyGet change : StateM World α) world = change world := rfl

theorem deliver_eq (world : World) (file text : String) :
    deliver host (some file) text world =
      match world.save file text with
      | (.ok (), after) => (.ok "", after)
      | (.error error, after) => (.error (.writing file error), after) := by
  have hparents : host.createParents file world =
      ((world.files.createFolders (Path.ofText file).parent).2,
        { world with files := (world.files.createFolders (Path.ofText file).parent).1 }) := rfl
  unfold save
  rcases hfolders : world.files.createFolders (Path.ofText file).parent with ⟨files, parents⟩
  rw [hfolders] at hparents
  cases parents with
  | error error => exact bind_apply hparents _
  | ok done =>
    refine (bind_apply hparents _).trans ?_
    dsimp only
    cases hwrite : files.write (.ofText file) text with
    | error error =>
      have hput : host.putFile file text { world with files } =
          (.error error, { world with files }) := by
        refine (modifyGet_apply _ _).trans ?_
        dsimp only
        rw [hwrite]
      exact bind_apply hput _
    | ok next =>
      have hput : host.putFile file text { world with files } =
          (.ok (), { world with files := next }) := by
        refine (modifyGet_apply _ _).trans ?_
        dsimp only
        rw [hwrite]
      exact bind_apply hput _

/-- What is saved can be read back, and no other file is changed. -/
theorem holds_of_save (h : world.save file text = (.ok (), after)) :
    world.files.Holds after.files (.ofText file) text ∧
      after.settings = world.settings ∧ after.input = world.input := by
  have hsame := world.files.sameFiles_createFolders (Path.ofText file).parent
  unfold save at h
  rcases hfolders : world.files.createFolders (Path.ofText file).parent with ⟨files, parents⟩
  rw [hfolders] at h hsame
  cases parents with
  | error error => cases h
  | ok done =>
    dsimp only at h
    cases hwrite : files.write (.ofText file) text with
    | error error => rw [hwrite] at h; cases h
    | ok next =>
      rw [hwrite] at h
      cases h
      exact ⟨FileTree.holds_of_write hsame hwrite, rfl, rfl⟩

/-- What cannot be saved changes no file. -/
theorem sameFiles_of_save {error : SystemError} (h : world.save file text = (.error error, after)) :
    world.files.SameFiles after.files := by
  have hsame := world.files.sameFiles_createFolders (Path.ofText file).parent
  unfold save at h
  rcases hfolders : world.files.createFolders (Path.ofText file).parent with ⟨files, parents⟩
  rw [hfolders] at h hsame
  cases parents with
  | error error =>
    cases h
    exact hsame
  | ok done =>
    dsimp only at h
    cases hwrite : files.write (.ofText file) text with
    | error error =>
      rw [hwrite] at h
      cases h
      exact hsame
    | ok next => rw [hwrite] at h; cases h

end World

/-! ## Runs -/

section Runs

variable {arguments : List String} {options : Options} {world : World} {source text : String}
  {fault : Fault}

theorem perform_eq (settings : Settings) (hsource : world.program options.file = .ok source) :
    perform World.host settings options world =
      match options.emit.render (options.format.getD settings.format) source with
      | .error fault => (.error (.program fault), world)
      | .ok text => deliver World.host options.output text world := by
  have hread := World.readProgram_eq world options.file
  rw [hsource] at hread
  refine (World.bind_apply hread _).trans ?_
  dsimp only
  cases options.emit.render (options.format.getD settings.format) source <;> rfl

/-- A run on a program that can be read. -/
theorem run_eq (hoptions : Request.ofArguments arguments = .ok (.run options))
    (hsource : world.program options.file = .ok source) :
    run World.host arguments world =
      match options.emit.render (world.format options) source with
      | .error fault => (⟨1, "", "error: " ++ fault.text ++ "\n"⟩, world)
      | .ok text =>
        match deliver World.host options.output text world with
        | (.ok stdout, after) => (⟨0, stdout, ""⟩, after)
        | (.error failure, after) => (⟨1, "", "error: " ++ failure.message ++ "\n"⟩, after) := by
  have hsettings : World.host.settingsText world = (world.settings, world) := rfl
  have hperform := perform_eq ((Settings.ofFile? world.settings).getD .default) hsource
  unfold run World.format
  rw [hoptions]
  refine (World.bind_apply hsettings _).trans ?_
  generalize options.emit.render _ source = rendered at hperform ⊢
  cases rendered with
  | error fault => exact World.bind_apply hperform _
  | ok text =>
    dsimp only at hperform ⊢
    generalize deliver World.host options.output text world = delivered at hperform ⊢
    obtain ⟨answer, after⟩ := delivered
    refine (World.bind_apply hperform _).trans ?_
    cases answer <;> rfl

/-- **A run stops at the stage that is asked for**, on every program that can be read and for all
arguments. If a stage that is needed fails, the run ends with the fault of the first one that does:
code 1, nothing on standard output, and the world as it was; any other run that needs the stage on
the same program ends alike. Otherwise there is a text, no later stage is run, and the text goes to
standard output and nowhere else, or to the file and nowhere else: code 0 if it can be saved there,
and else code 1 with the error of the system. -/
theorem run_stops_at_stage (hoptions : Request.ofArguments arguments = .ok (.run options))
    (hsource : world.program options.file = .ok source) :
    ((∃ stage fault, options.emit.needs stage = true ∧ Source.FailsIn source stage fault) ∨
      ∃ text, options.emit.Produces (world.format options) source text) ∧
    (∀ stage fault, options.emit.needs stage = true → Source.FailsIn source stage fault →
      run World.host arguments world = (⟨1, "", "error: " ++ fault.text ++ "\n"⟩, world) ∧
      ∀ arguments' options' world', Request.ofArguments arguments' = .ok (.run options') →
        world'.program options'.file = .ok source → options'.emit.needs stage = true →
          run World.host arguments' world' =
            ((run World.host arguments world).1, world')) ∧
    ∀ text, options.emit.Produces (world.format options) source text →
      match options.output with
      | none => run World.host arguments world = (⟨0, text, ""⟩, world)
      | some file =>
        match world.save file text with
        | (.ok (), after) =>
          run World.host arguments world = (⟨0, "", ""⟩, after) ∧
            world.files.Holds after.files (.ofText file) text ∧
            after.settings = world.settings ∧ after.input = world.input
        | (.error error, after) =>
          run World.host arguments world =
            (⟨1, "", "error: " ++ (Failure.writing file error).message ++ "\n"⟩, after) ∧
            world.files.SameFiles after.files := by
  refine ⟨options.emit.render_cases _ source, ?_, ?_⟩
  · intro stage fault hneeds hfails
    have hrun := run_eq hoptions hsource
    rw [Emit.render_of_failsIn hfails hneeds] at hrun
    refine ⟨hrun, fun arguments' options' world' hoptions' hsource' hneeds' => ?_⟩
    have hrun' := run_eq hoptions' hsource'
    rw [Emit.render_of_failsIn hfails hneeds'] at hrun'
    rw [hrun, hrun']
  · intro text hproduces
    have hrun := run_eq hoptions hsource
    rw [Emit.render_of_produces hproduces] at hrun
    cases houtput : options.output with
    | none =>
      rw [houtput] at hrun
      exact hrun
    | some file =>
      simp only [houtput, World.deliver_eq] at hrun
      dsimp only
      rcases hsave : world.save file text with ⟨_ | done, after⟩
      · rw [hsave] at hrun
        exact ⟨hrun, World.sameFiles_of_save hsave⟩
      · rw [hsave] at hrun
        exact ⟨hrun, World.holds_of_save hsave⟩

/-- A second shape of one name is a fault of painting. The file that the scene would go to keeps its
text; for the tree of the same program the run succeeds. -/
theorem run_stops_at_stage_of_second_declaration :
    let source := "A is circle.\nA is square."
    let world : World := ⟨none, source.toUTF8, ⟨[], [(["out"], .file "old")]⟩⟩
    let message := "error: [line 2] InterpretError: Shape \"A\" already exists!\n"
    world.program "-" = .ok source ∧
    Request.ofArguments ["-", "--output=out"] = .ok (.run ⟨"-", none, .scene, some "out", none⟩) ∧
    run World.host ["-", "--output=out"] world = (⟨1, "", message⟩, world) ∧
    ∃ text, run World.host ["--emit=tree", "-"] world = (⟨0, text, ""⟩, world) := by
  intro source world message
  have hsource : world.program "-" = .ok source := by
    rw [World.program, if_pos rfl, textOfBytes_toUTF8]
    rfl
  have hscene : Request.ofArguments ["-", "--output=out"] =
      .ok (.run ⟨"-", none, .scene, some "out", none⟩) := by rfl
  have htree : Request.ofArguments ["--emit=tree", "-"] =
      .ok (.run ⟨"-", none, .tree, none, none⟩) := by rfl
  have hfault : ((Source.tokens source).toOption.bind (Program.parse · |>.toOption)).map
      (Token.faultOf? ·.paint) = some (some ⟨.alreadyDeclared "A", 2⟩) := by decide +kernel
  have hmessage : "error: " ++ Fault.text ⟨.alreadyDeclared "A", 2⟩ ++ "\n" = message := by decide
  cases hscan : Source.tokens source with
  | error fault => simp [hscan, Except.toOption] at hfault
  | ok found =>
    cases hparse : Program.parse found with
    | error fault => simp [hscan, hparse, Except.toOption] at hfault
    | ok tree =>
      simp only [hscan, hparse, Except.toOption, Option.bind_some, Option.map_some,
        Option.some.injEq] at hfault
      have hpaint := Token.eq_error_of_faultOf hfault
      obtain ⟨-, hfails, -⟩ := run_stops_at_stage hscene hsource
      obtain ⟨-, -, hproduces⟩ := run_stops_at_stage htree hsource
      refine ⟨hsource, hscene, ?_, tree.outline.text, hproduces _ (.tree hscan hparse)⟩
      rw [← hmessage]
      exact (hfails .painting _ rfl (.painting hscan hparse hpaint)).1

end Runs

end CommandLine

end Tableau
