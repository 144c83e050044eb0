import PageQueries.Proofs.Except
import PageQueries.Proofs.FileTree.Folder

/-!
# Trees with the same files

Two trees may have the same files and differ in their folders (`SameFiles`).
Making folders is the only thing the command does to a tree that it goes on to
refuse, and it leaves such a tree (`sameFiles_ensureFolders`). The files of a
folder, as a disk store sees them, are then the same as well
(`SameFiles.get?_filesAt`).

`SameFilesBut t p content t'` is what is left when the file at `p` is written
after all: the content there, and the same files elsewhere.
-/
namespace PageQueries.FileTree

/-- The files of both trees stand at the same places and hold the same. -/
structure SameFiles (t t' : FileTree) : Prop where
  current : t'.current = t.current
  file : ∀ place content,
    t'.at? place = some (.file content) ↔ t.at? place = some (.file content)

/-- The second tree has the content where the path leads and otherwise the files of the first. -/
structure SameFilesBut (t : FileTree) (p : Path) (content : Bytes) (t' : FileTree) : Prop where
  read : t'.read p = .ok content
  others : ∀ place, place ≠ t.destination p → ∀ c,
    t'.at? place = some (.file c) ↔ t.at? place = some (.file c)

variable {t t' t'' : FileTree} {p : Path} {place : List Text} {content : Bytes}

namespace SameFiles

theorem refl (t : FileTree) : SameFiles t t := ⟨rfl, fun _ _ => Iff.rfl⟩

theorem trans (h : SameFiles t t') (h' : SameFiles t' t'') : SameFiles t t'' :=
  ⟨h'.current.trans h.current, fun place content => (h'.file place content).trans (h.file _ _)⟩

/-- A path leads to the same file, if it leads there in both trees. -/
theorem at?_of_read (h : SameFiles t t') (hr : t'.read p = .ok content) :
    t.at? (t.destination p) = some (.file content) := by
  have hat := (find_eq_ok_iff.mp (read_eq_ok_iff.mp hr)).2
  rw [destination_congr h.current] at hat
  exact (h.file _ _).mp hat

/-- Folders have the same files. -/
theorem get?_filesAt (h : SameFiles t t') (place : List Text) (name : Text) :
    (t'.filesAt place).get? name = (t.filesAt place).get? name := by
  ext content
  rw [FileTree.get?_filesAt, FileTree.get?_filesAt, h.file]

end SameFiles

/-! ## Making folders -/

theorem sameFiles_put_folder (h : t.at? place = none) : SameFiles t (t.put place .folder) := by
  have hne : place ≠ [] := by
    rintro rfl
    rw [at?_root] at h
    cases h
  refine ⟨rfl, fun place' content => ?_⟩
  rw [at?_put t hne]
  split
  · rename_i heq
    simp [heq, h]
  · rfl

theorem sameFiles_makeFolder (h : t.makeFolder p = .ok t') : SameFiles t t' := by
  obtain ⟨place, -, h⟩ := bind_eq_ok_iff.mp h
  split at h
  · cases h
  · rename_i hnone
    cases h
    exact sameFiles_put_folder hnone

theorem sameFiles_ensureFolder (h : t.ensureFolder p = .ok t') : SameFiles t t' := by
  unfold ensureFolder at h
  split at h
  · rename_i hmake
    cases h
    exact sameFiles_makeFolder hmake
  · split at h
    · cases h
      exact .refl t
    · cases h

/-- Making folders changes no file. -/
theorem sameFiles_ensureFolders (h : t.ensureFolders p = .ok t') : SameFiles t t' := by
  induction p using ensureFolders.induct t generalizing t' with
  | case1 p t₁ he =>
    cases (ensureFolders_of_ok he).symm.trans h
    exact sameFiles_ensureFolder he
  | case2 p e he hup ih =>
    rw [ensureFolders_of_missing he hup] at h
    obtain ⟨t₁, habove, h⟩ := bind_eq_ok_iff.mp h
    exact (ih habove).trans (sameFiles_ensureFolder h)
  | case3 p e he hup => cases (ensureFolders_of_error he hup).symm.trans h

/-! ## Writing one file -/

theorem wrote_of_write (h : t.write p content = .ok t') : Wrote t p content t' := by
  have hfree := free_of_write h
  cases h.symm.trans (hfree.write content)
  exact hfree.put content

theorem Wrote.sameFilesBut (hw : Wrote t' p content t'') (h : SameFiles t t') :
    SameFilesBut t p content t'' := by
  refine ⟨hw.read, fun place hne c => ?_⟩
  rw [← destination_congr h.current] at hne
  rw [hw.at?, if_neg hne, h.file]

end PageQueries.FileTree
