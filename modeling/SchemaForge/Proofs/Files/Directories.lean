import Mathlib.Data.List.Infix
import SchemaForge.Files

/-!
# `Proofs.Files.Directories` — where paths lead and what making directories changes

A path is followed name by name. Where it leads to is decided by its names and its start alone; the
directories only decide whether it can be gone. A text that is put into a place of a directory makes no
directory, so every path leads where it led before; making directories takes none away and changes no
file.

## Contents
- **Following.** `resolve` and `placeOf`, where names lead to; `follow_cons_eq_ok_iff`, one name, and
  `locate_eq_placeOf`.
- **Directories.** `KeepsDirectories`, the trees in which a path can still be gone, and
  `SameDirectories`, those in which no other one can; `sameDirectories_put`.
- **Making directories.** `HasMade`, and `hasMade_createDirectories`.
-/

namespace SchemaForge.Files

variable {files before middle after : Files} {place target : Place} {name path text : String}
  {names : List String}

/-! ## Where names lead to -/

/-- The place that names lead to from a place, if they can be followed. -/
def resolve (place : Place) (names : List String) : Place := names.foldl step place

/-- The place that a path leads to, if it can be followed. -/
def placeOf (files : Files) (path : String) : Place := resolve (files.start path) (Path.steps path)

theorem enter_eq_ok_iff :
    files.enter place = .ok () ↔
      files.isDirectory place = true ∧ files.permit .enter place = .ok () := by
  unfold enter
  cases files.isDirectory place with
  | true  => simp
  | false => by_cases hfile : (files.content? place).isSome = true <;> simp [hfile]

/-- **One name is followed** out of a directory that can be entered, to where it leads. -/
theorem follow_cons_eq_ok_iff :
    files.follow place (name :: names) = .ok target ↔
      files.enter place = .ok () ∧ name.utf8ByteSize ≤ nameLimit
        ∧ files.follow (step place name) names = .ok target := by
  rw [follow]
  cases files.enter place with
  | error cause => exact ⟨fun h => (nomatch h), fun h => nomatch h.1⟩
  | ok _ =>
      by_cases hlong : nameLimit < name.utf8ByteSize
      · simp [bind, Except.bind, hlong, Nat.not_le.mpr hlong]
      · simp [bind, Except.bind, hlong, Nat.le_of_not_lt hlong]

/-- **Where names lead to does not depend on the files.** -/
theorem follow_eq_resolve (h : files.follow place names = .ok target) :
    target = resolve place names := by
  induction names generalizing place with
  | nil => exact (Except.ok.inj h).symm
  | cons name names ih => exact ih (follow_cons_eq_ok_iff.mp h).2.2

theorem locate_eq_ok_iff :
    files.locate path = .ok place ↔
      checkPath path = .ok () ∧ files.follow (files.start path) (Path.steps path) = .ok place := by
  unfold locate
  cases checkPath path with
  | error cause => exact ⟨fun h => (nomatch h), fun h => nomatch h.1⟩
  | ok _        => exact (and_iff_right rfl).symm

theorem locate_eq_placeOf (h : files.locate path = .ok place) : place = files.placeOf path :=
  follow_eq_resolve (locate_eq_ok_iff.mp h).2

/-! ## Directories -/

theorem isDirectory_iff :
    files.isDirectory place = true ↔
      place <+: files.workingDirectory ∨ (∃ directory ∈ files.directories, place <+: directory)
        ∨ ∃ file ∈ files.contents, place <+: file.1 ∧ place ≠ file.1 := by
  simp [isDirectory, or_assoc]

/-- What a directory lies in is a directory. -/
theorem isDirectory_of_isPrefix {other : Place} (hother : other <+: place)
    (h : files.isDirectory place = true) : files.isDirectory other = true := by
  rw [isDirectory_iff] at h ⊢
  rcases h with hwork | ⟨directory, hmem, hplace⟩ | ⟨file, hmem, hplace, hne⟩
  · exact Or.inl (hother.trans hwork)
  · exact Or.inr (Or.inl ⟨directory, hmem, hother.trans hplace⟩)
  · refine Or.inr (Or.inr ⟨file, hmem, hother.trans hplace, ?_⟩)
    rintro rfl
    exact hne (hplace.eq_of_length (Nat.le_antisymm hplace.length_le hother.length_le))

theorem isDirectory_start (files : Files) (path : String) :
    files.isDirectory (files.start path) = true := by
  rw [isDirectory_iff, start]
  split
  · exact Or.inl List.nil_prefix
  · exact Or.inl (List.prefix_refl _)

/-- What names lead to lies in a directory. -/
theorem isDirectory_dropLast_of_follow (hplace : files.isDirectory place.dropLast = true)
    (h : files.follow place names = .ok target) : files.isDirectory target.dropLast = true := by
  induction names generalizing place with
  | nil => exact Except.ok.inj h ▸ hplace
  | cons name names ih =>
      obtain ⟨henter, -, hrest⟩ := follow_cons_eq_ok_iff.mp h
      have hstep : (step place name).dropLast <+: place := by
        unfold step
        split
        · exact List.dropLast_prefix place
        · split
          · exact (List.dropLast_prefix _).trans (List.dropLast_prefix place)
          · rw [List.dropLast_concat]
      exact ih (isDirectory_of_isPrefix hstep (enter_eq_ok_iff.mp henter).1) hrest

theorem isDirectory_dropLast_of_locate (h : files.locate path = .ok place) :
    files.isDirectory place.dropLast = true :=
  isDirectory_dropLast_of_follow
    (isDirectory_of_isPrefix (List.dropLast_prefix _) (isDirectory_start files path))
    (locate_eq_ok_iff.mp h).2

/-- Whether the paths that can be followed in one tree can be followed in another. -/
structure KeepsDirectories (before after : Files) : Prop where
  isDirectory : ∀ place, before.isDirectory place = true → after.isDirectory place = true
  workingDirectory : after.workingDirectory = before.workingDirectory
  refusals : after.refusals = before.refusals

namespace KeepsDirectories

theorem refl (files : Files) : files.KeepsDirectories files := ⟨fun _ h => h, rfl, rfl⟩

theorem trans (h : before.KeepsDirectories middle) (h' : middle.KeepsDirectories after) :
    before.KeepsDirectories after where
  isDirectory := fun place hplace => h'.isDirectory place (h.isDirectory place hplace)
  workingDirectory := h'.workingDirectory.trans h.workingDirectory
  refusals := h'.refusals.trans h.refusals

theorem permit (h : before.KeepsDirectories after) (access : Access) (place : Place) :
    after.permit access place = before.permit access place := by
  unfold Files.permit
  rw [h.refusals]

theorem start (h : before.KeepsDirectories after) (path : String) :
    after.start path = before.start path := by
  unfold Files.start
  rw [h.workingDirectory]

theorem placeOf (h : before.KeepsDirectories after) (path : String) :
    after.placeOf path = before.placeOf path := by
  unfold Files.placeOf
  rw [h.start]

theorem follow (h : before.KeepsDirectories after) (hfollow : before.follow place names = .ok target) :
    after.follow place names = .ok target := by
  induction names generalizing place with
  | nil => exact hfollow
  | cons name names ih =>
      obtain ⟨henter, hshort, hrest⟩ := follow_cons_eq_ok_iff.mp hfollow
      obtain ⟨hdirectory, hpermit⟩ := enter_eq_ok_iff.mp henter
      have hafter : after.enter place = .ok () :=
        enter_eq_ok_iff.mpr ⟨h.isDirectory place hdirectory, (h.permit _ _).trans hpermit⟩
      exact follow_cons_eq_ok_iff.mpr ⟨hafter, hshort, ih hrest⟩

/-- A path that can be followed can still be followed, to the same place. -/
theorem locate (h : before.KeepsDirectories after) (hlocate : before.locate path = .ok place) :
    after.locate path = .ok place := by
  obtain ⟨hpath, hfollow⟩ := locate_eq_ok_iff.mp hlocate
  refine locate_eq_ok_iff.mpr ⟨hpath, ?_⟩
  rw [h.start]
  exact h.follow hfollow

end KeepsDirectories

/-- Whether two trees have the same directories. -/
structure SameDirectories (before after : Files) : Prop extends KeepsDirectories before after where
  makesNone : ∀ place, after.isDirectory place = true → before.isDirectory place = true

namespace SameDirectories

theorem refl (files : Files) : files.SameDirectories files := ⟨.refl files, fun _ h => h⟩

theorem trans (h : before.SameDirectories middle) (h' : middle.SameDirectories after) :
    before.SameDirectories after :=
  ⟨h.toKeepsDirectories.trans h'.toKeepsDirectories,
    fun place hplace => h.makesNone place (h'.makesNone place hplace)⟩

theorem symm (h : before.SameDirectories after) : after.SameDirectories before :=
  ⟨⟨h.makesNone, h.workingDirectory.symm, h.refusals.symm⟩, h.isDirectory⟩

theorem isDirectory_eq (h : before.SameDirectories after) (place : Place) :
    after.isDirectory place = before.isDirectory place :=
  Bool.eq_iff_iff.mpr ⟨h.makesNone place, h.isDirectory place⟩

end SameDirectories

/-- The places that have something after it was put somewhere. -/
theorem exists_mem_set {P : Place → Prop} (place : Place) (content : Content)
    (contents : List (Place × Content)) :
    (∃ file ∈ set place content contents, P file.1) ↔ P place ∨ ∃ file ∈ contents, P file.1 := by
  induction contents with
  | nil => simp [set]
  | cons file contents ih =>
      unfold set
      split
      · rename_i hhere
        simp [hhere]
      · simp only [List.mem_cons, exists_eq_or_imp, ih]
        tauto

/-- **Putting a text into a place of a directory makes no directory.** -/
theorem sameDirectories_put (text : String) (h : files.isDirectory place.dropLast = true) :
    files.SameDirectories (files.put place text) := by
  have hput : ∀ other, (files.put place text).isDirectory other = true ↔
      other <+: files.workingDirectory ∨ (∃ directory ∈ files.directories, other <+: directory) ∨
        (other <+: place ∧ other ≠ place) ∨
          ∃ file ∈ files.contents, other <+: file.1 ∧ other ≠ file.1 := by
    intro other
    rw [isDirectory_iff, put, exists_mem_set (P := fun p => other <+: p ∧ other ≠ p)]
  refine ⟨⟨fun other hbefore => ?_, rfl, rfl⟩, fun other hafter => ?_⟩
  · rw [hput]
    rcases isDirectory_iff.mp hbefore with hwork | hmade | hcontents
    · exact Or.inl hwork
    · exact Or.inr (Or.inl hmade)
    · exact Or.inr (Or.inr (Or.inr hcontents))
  · rcases (hput other).mp hafter with hwork | hmade | ⟨hother, hne⟩ | hcontents
    · exact isDirectory_iff.mpr (Or.inl hwork)
    · exact isDirectory_iff.mpr (Or.inr (Or.inl hmade))
    · -- what lies above the place is its directory or lies above that
      refine isDirectory_of_isPrefix ?_ h
      rcases List.eq_nil_or_concat place with rfl | ⟨directory, name, rfl⟩
      · exact absurd (List.prefix_nil.mp hother) hne
      · rw [List.concat_eq_append] at hother hne ⊢
        rw [List.dropLast_concat]
        exact (List.prefix_concat_iff.mp hother).resolve_left hne
    · exact isDirectory_iff.mpr (Or.inr (Or.inr hcontents))

/-! ## Making directories -/

theorem makeDirectory?_eq_ok (h : files.makeDirectory? path = .ok after) :
    files.locate path = .ok (files.placeOf path) ∧
      after = { files with directories := files.placeOf path :: files.directories } := by
  unfold makeDirectory? at h
  cases hlocate : files.locate path with
  | error cause => rw [hlocate] at h; exact nomatch h
  | ok place =>
      obtain rfl := locate_eq_placeOf hlocate
      rw [hlocate] at h
      dsimp only [bind, Except.bind] at h
      split at h
      · exact nomatch h
      · split at h
        · exact nomatch h
        · exact ⟨rfl, (Except.ok.inj h).symm⟩

theorem keepsDirectories_of_directories (made : List Place) :
    files.KeepsDirectories { files with directories := made ++ files.directories } := by
  refine ⟨fun place hplace => isDirectory_iff.mpr ?_, rfl, rfl⟩
  rcases isDirectory_iff.mp hplace with hwork | ⟨directory, hmem, hprefix⟩ | hcontents
  · exact Or.inl hwork
  · exact Or.inr (Or.inl ⟨directory, List.mem_append_right _ hmem, hprefix⟩)
  · exact Or.inr (Or.inr hcontents)

theorem leadsToDirectory_iff :
    files.leadsToDirectory path = true ↔
      files.locate path = .ok (files.placeOf path) ∧
        files.isDirectory (files.placeOf path) = true := by
  unfold leadsToDirectory
  cases hlocate : files.locate path with
  | error cause => exact ⟨fun h => (nomatch h), fun h => nomatch h.1⟩
  | ok place =>
      obtain rfl := locate_eq_placeOf hlocate
      exact (and_iff_right rfl).symm

theorem KeepsDirectories.leadsToDirectory (h : before.KeepsDirectories after)
    (hpath : before.leadsToDirectory path = true) : after.leadsToDirectory path = true := by
  rw [leadsToDirectory_iff, h.placeOf]
  obtain ⟨hlocate, hdirectory⟩ := leadsToDirectory_iff.mp hpath
  exact ⟨h.locate hlocate, h.isDirectory _ hdirectory⟩

/-- What making directories does to a tree: it adds some, so that the path leads to one if it succeeds,
    and changes nothing else. -/
structure HasMade (before : Files) (path : String) (outcome : Except FileError Unit × Files) :
    Prop where
  directories : ∃ made, outcome.2 = { before with directories := made ++ before.directories }
  leadsToDirectory : path ≠ "" → outcome.1 = .ok () → outcome.2.leadsToDirectory path = true

variable {other : String} {first outcome : Except FileError Unit × Files}

/-- What is made after something else has been made. -/
theorem HasMade.trans (h : before.HasMade other first) (h' : first.2.HasMade path outcome) :
    before.HasMade path outcome := by
  obtain ⟨made, hmade⟩ := h.directories
  obtain ⟨more, hmore⟩ := h'.directories
  exact ⟨⟨more ++ made, by rw [hmore, hmade, List.append_assoc]⟩, h'.leadsToDirectory⟩

theorem HasMade.of_error (h : before.HasMade other outcome) (cause : FileError) :
    before.HasMade path (.error cause, outcome.2) :=
  ⟨h.directories, fun _ hok => nomatch hok⟩

theorem hasMade_ensureDirectory (files : Files) (path : String) :
    files.HasMade path ((ensureDirectory path).run files) := by
  cases hmake : files.makeDirectory? path with
  | error cause =>
      have hrun : (ensureDirectory path).run files
          = (if files.leadsToDirectory path then .ok () else .error cause, files) := by
        simp only [ensureDirectory, StateT.run, hmake]
      rw [hrun]
      refine ⟨⟨[], rfl⟩, fun _ h => ?_⟩
      dsimp only at h ⊢
      split at h
      · assumption
      · exact nomatch h
  | ok after =>
      have hrun : (ensureDirectory path).run files = (.ok (), after) := by
        simp only [ensureDirectory, StateT.run, hmake]
      obtain ⟨hlocate, rfl⟩ := makeDirectory?_eq_ok hmake
      rw [hrun]
      refine ⟨⟨[files.placeOf path], rfl⟩, fun _ _ => ?_⟩
      have hkeeps := @keepsDirectories_of_directories files [files.placeOf path]
      refine leadsToDirectory_iff.mpr ⟨hkeeps.locate hlocate, ?_⟩
      exact isDirectory_iff.mpr (Or.inr (Or.inl ⟨_, List.mem_cons_self, List.prefix_refl _⟩))

/-- A directory is made at once, or after those in which it lies, if nothing is there to make it in. -/
theorem run_ensureAlong_cons (ensure : String → StateM Files (Except FileError Unit))
    (files : Files) (path parent : String) (parents : List String) :
    (ensureAlong ensure path (parent :: parents)).run files =
      match (ensure path).run files with
      | (.error .notFound, files) =>
        match (ensureAlong ensure parent parents).run files with
        | (.ok _, files)        => (ensure path).run files
        | (.error cause, files) => (.error cause, files)
      | outcome                   => outcome := by
  rw [ensureAlong, StateT.run_bind]
  obtain ⟨result, next⟩ := (ensure path).run files
  rcases result with cause | _
  · cases cause
    · show StateT.run (_ >>= _) next =
        match (ensureAlong ensure parent parents).run next with
        | (.ok _, files)        => (ensure path).run files
        | (.error cause, files) => (.error cause, files)
      rw [StateT.run_bind]
      obtain ⟨result, next⟩ := (ensureAlong ensure parent parents).run next
      cases result <;> rfl
    all_goals rfl
  · rfl

theorem hasMade_ensureAlong (files : Files) (path : String) (parents : List String) :
    files.HasMade path ((ensureAlong ensureDirectory path parents).run files) := by
  induction parents generalizing path files with
  | nil => exact hasMade_ensureDirectory files path
  | cons parent parents ih =>
      have hfirst := hasMade_ensureDirectory files path
      rw [run_ensureAlong_cons]
      split
      · rename_i next hnext
        rw [hnext] at hfirst
        have hparents := hfirst.trans (ih next parent)
        split
        · rename_i made hmade
          rw [hmade] at hparents
          exact hparents.trans (hasMade_ensureDirectory made path)
        · rename_i cause made hmade
          rw [hmade] at hparents
          exact hparents.of_error cause
      · exact hfirst

/-- **Making directories changes nothing else**, and if it succeeds the path leads to a directory. -/
theorem hasMade_createDirectories (files : Files) (path : String) :
    files.HasMade path ((createDirectories path).run files) := by
  unfold createDirectories ensureAll
  split
  · rename_i hempty
    exact ⟨⟨[], rfl⟩, fun hne => absurd hempty hne⟩
  · exact hasMade_ensureAlong files path (Path.parents path)

end SchemaForge.Files
