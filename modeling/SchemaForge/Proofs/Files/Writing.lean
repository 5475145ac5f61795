import SchemaForge.Proofs.Files.Directories

/-!
# `Proofs.Files.Writing` — what writing files changes

A text is written if its path leads, through directories, to a place that is none, and if the system
lets a file be changed or made there. It is put into that place, and nothing else changes. After
several texts have been written, each place has the last one that was put there, and every other place
has what it had.

## Contents
- **Writing.** `IsWritable`, what a path needs to be written, and `write?_eq_ok_iff`; `HasText`, what a
  path then leads to.
- **Several texts.** `entryOf`, and `HasWritten`, the state after several writes, and `HasWritten.hasText`.
-/

namespace SchemaForge.Files

variable {files before middle after : Files} {place : Place} {path text : String}

/-! ## Writing a text -/

/-- What a path needs to name a file that is there or may be made: it leads to a place that is no
    directory, through directories that can be entered. -/
structure NamesFile (files : Files) (path : String) : Prop where
  locate : files.locate path = .ok (files.placeOf path)
  isDirectory : files.isDirectory (files.placeOf path) = false
  endsInName : Path.endsInSlash path = false

/-- What a path needs to be written: the system lets the file be changed if it is there, and its
    directory if it is not. -/
structure IsWritable (files : Files) (path : String) : Prop extends NamesFile files path where
  permit : files.permit .write (if (files.content? (files.placeOf path)).isSome
    then files.placeOf path else (files.placeOf path).dropLast) = .ok ()

/-- Whether a path leads to a file that holds a text. It is read if the system lets it be read. -/
structure HasText (files : Files) (path text : String) : Prop where
  content? : files.content? (files.placeOf path) = some (.text text)
  read : files.permit .read (files.placeOf path) = .ok () → files.read path = .ok text

/-- A path names a file wherever the same directories are. -/
theorem NamesFile.of_sameDirectories (h : before.NamesFile path)
    (hsame : before.SameDirectories after) : after.NamesFile path where
  locate := (hsame.locate h.locate).trans (congrArg _ (hsame.placeOf path).symm)
  isDirectory := (hsame.isDirectory_eq _).trans (hsame.placeOf path ▸ h.isDirectory)
  endsInName := h.endsInName

theorem NamesFile.hasText (h : files.NamesFile path)
    (hcontent : files.content? (files.placeOf path) = some (.text text)) :
    files.HasText path text := by
  refine ⟨hcontent, fun hpermit => ?_⟩
  unfold Files.read
  rw [h.locate]
  dsimp only [bind, Except.bind]
  rw [h.isDirectory, hcontent, h.endsInName, hpermit]
  rfl

/-- **Writing puts the text into the place that the path leads to**, if the path can be written. -/
theorem write?_eq_ok_iff :
    files.write? path text = .ok after ↔
      files.IsWritable path ∧ after = files.put (files.placeOf path) text := by
  unfold write?
  constructor
  · intro h
    cases hlocate : files.locate path with
    | error cause => rw [hlocate] at h; exact nomatch h
    | ok place =>
        obtain rfl := locate_eq_placeOf hlocate
        rw [hlocate] at h
        dsimp only [bind, Except.bind] at h
        split at h
        · exact nomatch h
        · rename_i hfile
          rw [Bool.or_eq_true, not_or, Bool.not_eq_true, Bool.not_eq_true] at hfile
          split at h
          · exact nomatch h
          · rename_i hpermit
            exact ⟨⟨⟨hlocate, hfile.1, hfile.2⟩, hpermit⟩, (Except.ok.inj h).symm⟩
  · rintro ⟨hpath, rfl⟩
    rw [hpath.locate]
    dsimp only [bind, Except.bind]
    rw [hpath.isDirectory, hpath.endsInName, hpath.permit]
    rfl

/-- Writing makes no directory. -/
theorem NamesFile.sameDirectories_put (h : files.NamesFile path) (text : String) :
    files.SameDirectories (files.put (files.placeOf path) text) :=
  Files.sameDirectories_put text (isDirectory_dropLast_of_locate h.locate)

/-- **A text that is written is there**, and nothing else has changed. -/
theorem NamesFile.hasText_put (h : files.NamesFile path) (text : String) :
    (files.put (files.placeOf path) text).HasText path text := by
  have hsame := h.sameDirectories_put text
  refine (h.of_sameDirectories hsame).hasText ?_
  rw [hsame.placeOf, content?_put, if_pos rfl]

/-! ## Writing several texts -/

/-- What a text that is written to a path puts into the tree. -/
def entryOf (files : Files) (write : String × String) : Place × Content :=
  (files.placeOf write.1, .text write.2)

/-- The state of files after texts were written, each with its path, one after the other. -/
structure HasWritten (before after : Files) (writes : List (String × String)) : Prop where
  same : before.SameDirectories after
  namesFile : ∀ write ∈ writes, before.NamesFile write.1
  /-- The last text that was put into a place is there, and what was there before if none was. -/
  content? : ∀ place, after.content? place
    = ((writes.map before.entryOf).reverse.lookup place).or (before.content? place)

theorem HasWritten.nil (files : Files) : files.HasWritten files [] where
  same := .refl files
  namesFile := fun _ hwrite => nomatch hwrite
  content? := fun _ => rfl

theorem lookup_concat {entries : List (Place × Content)} (place other : Place) (content : Content) :
    (entries ++ [(place, content)]).lookup other
      = (entries.lookup other).or (if other = place then some content else none) := by
  rw [List.lookup_append]
  congr 1
  by_cases hother : other = place
  · rw [hother, List.lookup_cons_self, if_pos rfl]
  · have hne : (other == place) = false := by simpa using hother
    rw [List.lookup_cons, hne, if_neg hother]
    rfl

/-- **One more text in front.** -/
theorem HasWritten.cons {writes : List (String × String)} (h : before.write? path text = .ok middle)
    (hrest : middle.HasWritten after writes) : before.HasWritten after ((path, text) :: writes) := by
  obtain ⟨hpath, hput⟩ := write?_eq_ok_iff.mp h
  have hsame : before.SameDirectories middle := hput ▸ hpath.sameDirectories_put text
  exact
    { same := hsame.trans hrest.same
      namesFile := fun write hwrite => by
        rcases List.mem_cons.mp hwrite with rfl | hwrite
        · exact hpath.toNamesFile
        · exact (hrest.namesFile write hwrite).of_sameDirectories hsame.symm
      content? := fun place => by
        have hentry : middle.entryOf = before.entryOf :=
          funext fun write => congrArg (·, Content.text write.2) (hsame.placeOf write.1)
        rw [hrest.content? place, hentry, hput, content?_put, List.map_cons, List.reverse_cons,
          entryOf, lookup_concat, Option.or_assoc]
        split <;> rfl }

/-- A place that none of the paths leads to keeps what it holds. -/
theorem HasWritten.content?_of_not_mem {writes : List (String × String)}
    (h : before.HasWritten after writes)
    (hplace : place ∉ writes.map fun write => before.placeOf write.1) :
    after.content? place = before.content? place := by
  rw [h.content? place, List.lookup_eq_none_iff.mpr, Option.none_or]
  intro entry hentry
  obtain ⟨write, hwrite, rfl⟩ := List.mem_map.mp (List.mem_reverse.mp hentry)
  exact bne_iff_ne.mpr fun he => hplace (List.mem_map.mpr ⟨write, hwrite, he.symm⟩)

/-- **If no two paths lead to the same place, every path leads to its text.** -/
theorem HasWritten.hasText {writes : List (String × String)} (h : before.HasWritten after writes)
    (hdistinct : (writes.map fun write => before.placeOf write.1).Nodup) :
    ∀ write ∈ writes, after.HasText write.1 write.2 := by
  intro write hwrite
  refine ((h.namesFile write hwrite).of_sameDirectories h.same).hasText ?_
  obtain ⟨front, back, rfl⟩ := List.append_of_mem hwrite
  have hlookup : ((front ++ write :: back).map before.entryOf).reverse.lookup
      (before.placeOf write.1) = some (.text write.2) := by
    refine List.lookup_eq_some_iff.mpr ⟨(back.map before.entryOf).reverse,
      (front.map before.entryOf).reverse, by simp [entryOf], fun entry hentry => ?_⟩
    obtain ⟨other, hother, rfl⟩ := List.mem_map.mp (List.mem_reverse.mp hentry)
    rw [List.map_append, List.map_cons, List.nodup_append] at hdistinct
    have hnot := (List.nodup_cons.mp hdistinct.2.1).1
    exact bne_iff_ne.mpr fun he => hnot (List.mem_map.mpr ⟨other, hother, he.symm⟩)
  rw [h.same.placeOf, h.content? _, hlookup]
  rfl

end SchemaForge.Files
