import PageQueries.Proofs.Digest
import PageQueries.Store.Disk

/-!
# The order of entry files

A disk store lists its entries in the order of their files' names. A name is a
digest and a fixed ending, and every digest has 64 digits, so this is the order
of the digests (`le_fileOf`). The order of texts is linear, so sorting forgets
the order in which a folder gives its files.
-/
namespace PageQueries

namespace Text

theorem le_refl (s : Text) : le s s = true := by
  induction s with
  | nil => rfl
  | cons a s ih => rw [le, if_pos rfl, ih]

theorem le_total (s t : Text) : (le s t || le t s) = true := by
  induction s generalizing t with
  | nil => simp [le]
  | cons a s ih =>
    cases t with
    | nil => simp [le]
    | cons b t =>
      by_cases h : a = b
      · subst h
        simpa [le] using ih t
      · have hba : ¬ b = a := fun e => h e.symm
        simp only [le, if_neg h, if_neg hba, Bool.or_eq_true, decide_eq_true_eq]
        omega

theorem le_antisymm {s t : Text} (hst : le s t = true) (hts : le t s = true) : s = t := by
  induction s generalizing t with
  | nil =>
    cases t with
    | nil => rfl
    | cons b t => simp [le] at hts
  | cons a s ih =>
    cases t with
    | nil => simp [le] at hst
    | cons b t =>
      by_cases h : a = b
      · subst h
        simp only [le, if_true] at hst hts
        rw [ih hst hts]
      · have hba : ¬ b = a := fun e => h e.symm
        simp only [le, if_neg h, if_neg hba, decide_eq_true_eq] at hst hts
        exact absurd (Char.toNat_inj.mp (by omega)) h

theorem le_trans {s t u : Text} (hst : le s t = true) (htu : le t u = true) : le s u = true := by
  induction s generalizing t u with
  | nil => simp [le]
  | cons a s ih =>
    cases t with
    | nil => simp [le] at hst
    | cons b t =>
      cases u with
      | nil => simp [le] at htu
      | cons c u =>
        simp only [le] at hst htu ⊢
        by_cases hab : a = b
        · subst hab
          by_cases hac : a = c
          · rw [if_pos hac] at htu ⊢
            exact ih (by simpa using hst) htu
          · rw [if_neg hac] at htu ⊢
            exact htu
        · rw [if_neg hab, decide_eq_true_eq] at hst
          by_cases hbc : b = c
          · subst hbc
            rw [if_neg hab, decide_eq_true_eq]
            exact hst
          · rw [if_neg hbc, decide_eq_true_eq] at htu
            have hne : a.toNat ≠ b.toNat := fun e => hab (Char.toNat_inj.mp e)
            have hac : ¬ a = c := by
              intro e
              subst e
              omega
            rw [if_neg hac, decide_eq_true_eq]
            omega

/-- A common ending does not matter behind texts of one length. -/
theorem le_append {s t : Text} (h : s.length = t.length) (ending : Text) :
    le (s ++ ending) (t ++ ending) = le s t := by
  induction s generalizing t with
  | nil =>
    cases t with
    | nil => rw [List.nil_append, le_refl, le_refl]
    | cons b t => simp at h
  | cons a s ih =>
    cases t with
    | nil => simp at h
    | cons b t =>
      simp only [List.length_cons, Nat.add_right_cancel_iff] at h
      rw [List.cons_append, List.cons_append, le, le, ih h]

end Text

namespace DiskStore

theorem fileOf_inj {k k' : Text} : fileOf k = fileOf k' ↔ Digest.ofText k = Digest.ofText k' :=
  List.append_left_inj _

theorem isEnding_fileOf (k : Text) : Text.isEnding entryEnding (fileOf k) = true :=
  List.isSuffixOf_iff_suffix.mpr (List.suffix_append _ _)

/-- Files are ordered by the digests of their keys. -/
theorem le_fileOf (k k' : Text) :
    Text.le (fileOf k) (fileOf k') = Text.le (Digest.ofText k) (Digest.ofText k') :=
  Text.le_append (by rw [Digest.length_ofText, Digest.length_ofText]) _

theorem pairwise_mergeSort_le (files : List Text) :
    (files.mergeSort Text.le).Pairwise fun s t => Text.le s t = true :=
  @List.pairwise_mergeSort Text Text.le (fun _ _ _ => Text.le_trans) Text.le_total files

/-- Sorting files forgets the order in which they come. -/
theorem mergeSort_eq_of_perm {files files' : List Text} (h : files.Perm files') :
    files.mergeSort Text.le = files'.mergeSort Text.le := by
  refine List.Perm.eq_of_pairwise (fun _ _ _ _ => Text.le_antisymm) (pairwise_mergeSort_le files)
    (pairwise_mergeSort_le files') ?_
  exact (List.mergeSort_perm _ _).trans (h.trans (List.mergeSort_perm _ _).symm)

end DiskStore

end PageQueries
