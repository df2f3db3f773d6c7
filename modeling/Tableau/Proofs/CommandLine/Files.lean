import Tableau.CommandLine.FileTree

/-!
# What is written can be read

A file that has been written is read under the same path with the text that was written
(`FileTree.read_write`), and all other files are as they were. Creating folders changes no file
(`FileTree.sameFiles_createFolders`). `FileTree.Holds` is both together: the path leads to the text,
and nothing else has changed but for new folders.

To read a file is to follow its path anew. Every step of the way starts in a folder, and what was
written is none, so the way through the new tree is the way through the old one (`follow_put`).
-/

namespace Tableau.CommandLine.FileTree

variable {tree next : FileTree} {names target : List String} {entry : Entry} {path : Path}
  {text : String}

/-! ## Entries -/

theorem lookup_filter_of_ne {entries : List (List String × Entry)} (h : names ≠ target) :
    (entries.filter (·.1 ≠ target)).lookup names = entries.lookup names := by
  induction entries with
  | nil => rfl
  | cons first entries ih =>
    obtain ⟨key, entry⟩ := first
    by_cases hkey : key = target
    · have hne : (names == key) = false := beq_false_of_ne (hkey ▸ h)
      rw [List.filter_cons_of_neg (by simp [hkey]), ih, List.lookup_cons, hne]
    · rw [List.filter_cons_of_pos (by simp [hkey]), List.lookup_cons, List.lookup_cons, ih]

theorem entry?_put_self (h : names ≠ []) :
    FileTree.entry? (tree.put names entry) names = some entry := by
  have hempty : names.isEmpty = false := List.isEmpty_eq_false_iff.2 h
  simp [put, entry?, hempty]

theorem entry?_put_of_ne (h : names ≠ target) :
    FileTree.entry? (tree.put target entry) names = tree.entry? names := by
  have hne : (names == target) = false := beq_false_of_ne h
  unfold entry? put
  rw [List.lookup_cons, hne, lookup_filter_of_ne h]

/-! ## The same files -/

/-- Every file of either tree is in the other one, with the same text. -/
def SameFiles (before after : FileTree) : Prop :=
  ∀ names text, after.entry? names = some (.file text) ↔ before.entry? names = some (.file text)

theorem SameFiles.refl (tree : FileTree) : tree.SameFiles tree := fun _ _ => Iff.rfl

theorem SameFiles.trans {first second third : FileTree} (h : first.SameFiles second)
    (h' : second.SameFiles third) : first.SameFiles third :=
  fun names text => (h' names text).trans (h names text)

/-- A new folder changes no file. -/
theorem sameFiles_createFolder (h : tree.createFolder path = .ok next) : tree.SameFiles next := by
  unfold createFolder at h
  cases hplace : tree.place path with
  | error error => rw [hplace] at h; cases h
  | ok found =>
    rw [hplace] at h
    cases found with
    | none => cases h
    | some found =>
      obtain ⟨above, name⟩ := found
      simp only [bind, Except.bind] at h
      split at h
      · cases h
      · next hnone =>
        cases h
        intro names text
        by_cases hnames : names = above ++ [name]
        · rw [hnames, entry?_put_self (by simp), Option.not_isSome_iff_eq_none.1 hnone]
          simp
        · rw [entry?_put_of_ne hnames]

theorem sameFiles_settle {attempt : Except SystemError FileTree}
    (h : ∀ next, attempt = .ok next → tree.SameFiles next) :
    tree.SameFiles (tree.settle path attempt).1 := by
  cases attempt with
  | ok next => exact h next rfl
  | error error => exact .refl tree

theorem sameFiles_createFoldersTo (absolute : Bool) (components : List String) :
    tree.SameFiles (tree.createFoldersTo absolute components).1 := by
  induction components generalizing tree with
  | nil => exact .refl tree
  | cons name above ih =>
    unfold createFoldersTo
    dsimp only
    split
    · -- The folders above are created first, and then the folder itself.
      split
      · next found hfound =>
        have habove : tree.SameFiles (tree.createFoldersTo absolute above).1 := ih
        rw [hfound] at habove
        exact habove.trans (sameFiles_settle fun next => sameFiles_createFolder)
      · exact ih
    · exact sameFiles_settle fun next => sameFiles_createFolder

theorem sameFiles_createFolders (tree : FileTree) (path : Path) :
    tree.SameFiles (tree.createFolders path).1 :=
  sameFiles_createFoldersTo path.absolute path.components.reverse

/-! ## Writing and reading -/

/-- A place is a name in a folder, behind the way that leads to the folder. -/
theorem place_eq_ok {name : String} (h : tree.place path = .ok (some (names, name))) :
    path.components.dropLast ++ [name] = path.components ∧
      path.components.dropLast.foldlM tree.follow (tree.start path) = .ok names ∧
      tree.isFolder names = true ∧ name ≠ "." ∧ name ≠ ".." ∧ isTooLong name = false := by
  unfold place at h
  cases hlast : path.components.getLast? with
  | none => rw [hlast] at h; cases h
  | some last =>
    rw [hlast] at h
    cases hway : path.components.dropLast.foldlM tree.follow (tree.start path) with
    | error error => simp [hway, bind, Except.bind] at h
    | ok above =>
      simp only [hway, bind, Except.bind] at h
      split at h
      · cases h
      · next hfolder =>
        split at h
        · cases h
        · next hdots =>
          split at h
          · cases h
          · next hlong =>
            cases h
            simp only [Bool.or_eq_true, decide_eq_true_eq, not_or] at hdots
            have hcomponents : path.components.dropLast ++ [name] = path.components := by
              obtain ⟨above, habove⟩ := List.getLast?_eq_some_iff.1 hlast
              rw [habove, List.dropLast_concat]
            exact ⟨hcomponents, rfl, by simpa using hfolder, hdots.1, hdots.2,
              by simpa using hlong⟩

/-- Writing puts the text where the path leads, if no folder is there. -/
theorem write_eq_ok (h : tree.write path text = .ok next) :
    ∃ above name, tree.place path = .ok (some (above, name)) ∧
      tree.isFolder (above ++ [name]) = false ∧ path.trailingSlash = false ∧
      next = tree.put (above ++ [name]) (.file text) := by
  unfold write at h
  cases hplace : tree.place path with
  | error error => rw [hplace] at h; cases h
  | ok found =>
    rw [hplace] at h
    cases found with
    | none => cases h
    | some found =>
      obtain ⟨above, name⟩ := found
      simp only [bind, Except.bind] at h
      refine ⟨above, name, rfl, ?_⟩
      unfold isFolder
      split at h
      · cases h
      · next hentry =>
        split at h
        · cases h
        · next hslash =>
          cases h
          exact ⟨by rw [hentry]; rfl, by simpa using hslash, rfl⟩
      · next hentry =>
        split at h
        · cases h
        · next hslash =>
          cases h
          exact ⟨by rw [hentry]; rfl, by simpa using hslash, rfl⟩

/-- A file where there was no folder does not stand in any way. -/
theorem follow_put {component : String} {found : List String}
    (htarget : tree.isFolder target = false) (h : tree.follow names component = .ok found) :
    (tree.put target (.file text)).follow names component = .ok found := by
  unfold follow at h ⊢
  by_cases hfolder : tree.isFolder names = true
  · have hnames : names ≠ target := by
      rintro rfl
      rw [hfolder] at htarget
      cases htarget
    have hfolder' : (tree.put target (.file text)).isFolder names = true := by
      unfold isFolder at hfolder ⊢
      rwa [entry?_put_of_ne hnames]
    simp only [hfolder, hfolder', Bool.not_true, Bool.false_eq_true, if_false] at h ⊢
    by_cases hentry : (tree.entry? (names ++ [component])).isSome = true
    · have hentry' :
          (FileTree.entry? (tree.put target (.file text)) (names ++ [component])).isSome := by
        by_cases hsame : names ++ [component] = target
        · rw [← hsame, entry?_put_self (by simp)]
          rfl
        · rwa [entry?_put_of_ne hsame]
      rw [if_pos hentry] at h
      rwa [if_pos hentry']
    · rw [if_neg hentry] at h
      -- Only the components that stay or go back lead somewhere without an entry.
      split at h
      · next hdot => rwa [if_pos hdot]
      · next hdot =>
        rw [if_neg hdot]
        split at h
        · next hdots => rwa [if_pos hdots]
        · split at h <;> cases h
  · simp [hfolder] at h

theorem foldlM_follow_put (text : String) {components : List String} {found : List String}
    (htarget : tree.isFolder target = false)
    (h : components.foldlM tree.follow names = .ok found) :
    components.foldlM (tree.put target (.file text)).follow names = .ok found := by
  induction components generalizing names with
  | nil => exact h
  | cons component components ih =>
    rw [List.foldlM_cons] at h ⊢
    cases hstep : tree.follow names component with
    | error error => rw [hstep] at h; cases h
    | ok step =>
      rw [hstep] at h
      rw [follow_put htarget hstep]
      exact ih h

theorem read_write (h : tree.write path text = .ok next) : next.read path = .ok text := by
  obtain ⟨above, name, hplace, htarget, hslash, rfl⟩ := write_eq_ok h
  obtain ⟨hcomponents, hway, hfolder, hdot, hdots, hlong⟩ := place_eq_ok hplace
  have habove : above ≠ above ++ [name] := by simp
  have hentry : FileTree.entry? (tree.put (above ++ [name]) (.file text)) (above ++ [name]) =
      some (.file text) := entry?_put_self (by simp)
  have hlast : (tree.put (above ++ [name]) (.file text)).follow above name =
      .ok (above ++ [name]) := by
    have hfolder' : (tree.put (above ++ [name]) (.file text)).isFolder above = true := by
      unfold isFolder at hfolder ⊢
      rwa [entry?_put_of_ne habove]
    simp [follow, hfolder', hdot, hdots, hlong, hentry]
  have hresolve : (tree.put (above ++ [name]) (.file text)).resolve path =
      .ok (above ++ [name]) := by
    unfold resolve
    rw [← hcomponents, List.foldlM_append]
    have hway' := foldlM_follow_put text htarget hway
    have hstart : (tree.put (above ++ [name]) (.file text)).start path = tree.start path := rfl
    rw [hstart, hway']
    simp [bind, Except.bind, hlast, hslash, pure, Except.pure]
  unfold read
  rw [hresolve]
  simp only [bind, Except.bind, hentry]
  rfl

/-- The path leads to the text; all other files are those of the tree before. -/
structure Holds (before after : FileTree) (path : Path) (text : String) : Prop where
  read : after.read path = .ok text
  others : ∃ target, after.entry? target = some (.file text) ∧
    ∀ names, names ≠ target → ∀ other,
      after.entry? names = some (.file other) ↔ before.entry? names = some (.file other)

theorem holds_of_write {before : FileTree} (hsame : before.SameFiles tree)
    (h : tree.write path text = .ok next) : before.Holds next path text := by
  refine ⟨read_write h, ?_⟩
  obtain ⟨above, name, -, -, -, rfl⟩ := write_eq_ok h
  refine ⟨above ++ [name], entry?_put_self (by simp), fun names hnames other => ?_⟩
  rw [entry?_put_of_ne hnames]
  exact hsame names other

end Tableau.CommandLine.FileTree
