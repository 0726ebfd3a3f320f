import Mathlib.Tactic.SplitIfs
import SelectAlgebra.Host.FileTree

/-!
# Writing and reading back

Where a path leads is a matter of the folders alone, so it leads to the same location after a file
has been written.

Main results:

- Theorem `locate_of_files`: the files have no say in which location a path leads to.
- Theorem `MakesFile.write_eq`: a file that can be made is written.
- Theorem `MakesFile.read_withFile`: a file that was written is read back.
- Theorem `file?_withFile`: nothing but the file that was put changes.
-/

namespace SelectAlgebra.FileTree

/-- A file can be made at a path, and the location at which it is made. -/
structure MakesFile (t : FileTree) (path : String) (l : Location) : Prop where
  target : t.locateTarget path = .ok l
  notFolder : t.isFolder l = false

/-- The files have no say in where a path leads. -/
theorem follow_of_files {t : FileTree} {files : List (Location × ByteArray)} {start l : Location}
    {parts : List String} (h : t.follow start parts = .ok l) :
    { t with files }.follow start parts = .ok l := by
  induction parts generalizing start with
  | nil => exact h
  | cons part parts ih =>
    have hfolder : { t with files }.isFolder start = t.isFolder start := rfl
    rw [follow] at h ⊢
    rw [hfolder]
    -- A path that leads somewhere has no errors on its way, and those alone look at files.
    split_ifs at h ⊢
    all_goals exact ih h

/-- The files have no say in which location a path leads to. -/
theorem locate_of_files {t : FileTree} {files : List (Location × ByteArray)} {path : String}
    {l : Location} (h : t.locate path = .ok l) : { t with files }.locate path = .ok l := by
  rw [locate] at h ⊢
  cases hcheck : checkPath path with
  | error cause =>
    rw [hcheck] at h
    cases h
  | ok _ =>
    rw [hcheck] at h
    exact follow_of_files h

/-- Writing changes the files of a tree alone. -/
theorem eq_of_write {t t' : FileTree} {path : String} {bytes : ByteArray}
    (h : t.write path bytes = .ok t') : ∃ files, t' = { t with files } := by
  rw [write] at h
  cases htarget : t.locateTarget path with
  | error cause =>
    rw [htarget] at h
    cases h
  | ok l =>
    rw [htarget] at h
    change (if t.isFolder l then _ else _) = _ at h
    split at h
    · cases h
    · cases h
      exact ⟨_, rfl⟩

/-- The location at which a file is made is the one to which the path leads. -/
theorem locate_of_locateTarget {t : FileTree} {path : String} {l : Location}
    (h : t.locateTarget path = .ok l) : t.locate path = .ok l := by
  rw [locateTarget] at h
  rw [locate]
  cases hcheck : checkPath path with
  | error cause =>
    rw [hcheck] at h
    cases h
  | ok _ =>
    rw [hcheck] at h
    change (if endsWithSlash path then _ else _) = _ at h
    split at h
    · -- Behind a slash there is no file to be made.
      cases hfolders : t.follow (t.startOf path)
          (((parts path).filter fun part => !part.isEmpty).dropLast ++ ["."]) with
      | error cause =>
        rw [hfolders] at h
        cases h
      | ok l' =>
        rw [hfolders] at h
        cases h
    · exact h

/-- The tree with a file at a location. -/
def withFile (t : FileTree) (l : Location) (bytes : ByteArray) : FileTree :=
  { t with files := put l bytes t.files }

/-- Nothing but the file that was put changes. -/
theorem file?_withFile (t : FileTree) {l k : Location} (bytes : ByteArray) (hk : k ≠ l) :
    (t.withFile l bytes).file? k = t.file? k := by
  rw [withFile, file?, lookup_put, if_neg hk, file?]

namespace MakesFile

variable {t : FileTree} {path : String} {l : Location}

/-- A file that can be made is written. -/
theorem write_eq (h : t.MakesFile path l) (bytes : ByteArray) :
    t.write path bytes = .ok (t.withFile l bytes) := by
  rw [write, h.target]
  change (if t.isFolder l then _ else _) = _
  rw [h.notFolder]
  rfl

/-- A file that was written is read back. -/
theorem read_withFile (h : t.MakesFile path l) (bytes : ByteArray) :
    (t.withFile l bytes).read path = .ok bytes := by
  have hlocate : (t.withFile l bytes).locate path = .ok l :=
    locate_of_files (locate_of_locateTarget h.target)
  have hfolder : (t.withFile l bytes).isFolder l = false := h.notFolder
  have hfile : (t.withFile l bytes).file? l = some bytes := by
    rw [withFile, file?, lookup_put, if_pos rfl]
  rw [read, hlocate]
  change (if (t.withFile l bytes).isFolder l then _ else _) = _
  rw [hfolder, hfile]
  rfl

end MakesFile

end SelectAlgebra.FileTree
