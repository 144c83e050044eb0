import Mathlib.Data.List.Induction
import PageQueries.Classification

/-!
# First occurrences

`unique` walks through a list with the items that it has seen. What it keeps is
said here without that walk: `Firsts as bs` builds the list `as` from its end,
and an item that is added to it is added to `bs` if and only if it is new.

Results:
* `firsts_unique`, `Firsts.eq_unique`: `unique` keeps exactly the first
  occurrences, and nothing else does.
* `Firsts.nodup`, `Firsts.mem_iff`, `Firsts.sublist`, `Firsts.eq_of_nodup`: what
  follows for the items, their order, and lists without repetitions.
-/
namespace PageQueries

variable {α : Type}

/-- The second list is the first with exactly the first occurrence of each item kept. -/
inductive Firsts : List α → List α → Prop
  | nil : Firsts [] []
  | first {a : α} {as bs : List α} (h : a ∉ as) (hf : Firsts as bs) : Firsts (as ++ [a]) (bs ++ [a])
  | again {a : α} {as bs : List α} (h : a ∈ as) (hf : Firsts as bs) : Firsts (as ++ [a]) bs

namespace Firsts

variable {a : α} {as bs : List α}

theorem mem_iff (h : Firsts as bs) : a ∈ bs ↔ a ∈ as := by
  induction h with
  | nil => rfl
  | first _ _ ih => simp [ih]
  | again hmem _ ih =>
    rw [ih, List.mem_append, List.mem_singleton]
    exact ⟨Or.inl, fun h => h.elim id fun e => e ▸ hmem⟩

theorem sublist (h : Firsts as bs) : bs.Sublist as := by
  induction h with
  | nil => exact List.Sublist.refl _
  | first _ _ ih => exact ih.append_right _
  | again _ _ ih => exact ih.trans (List.sublist_append_left _ _)

theorem nodup (h : Firsts as bs) : bs.Nodup := by
  induction h with
  | nil => exact List.nodup_nil
  | first hnew hf ih =>
    refine List.nodup_append.mpr ⟨ih, by simp, ?_⟩
    intro b hb b' hb' e
    rw [e, List.mem_singleton.mp hb'] at hb
    exact hnew (hf.mem_iff.mp hb)
  | again _ _ ih => exact ih

theorem eq_of_nodup (h : Firsts as bs) (hn : as.Nodup) : bs = as := by
  induction h with
  | nil => rfl
  | first _ _ ih => rw [ih (hn.sublist (List.sublist_append_left _ _))]
  | again hmem _ _ => exact absurd rfl ((List.nodup_append.mp hn).2.2 _ hmem _ (by simp))

end Firsts

variable [DecidableEq α]

/-- The last item of a list is kept if it stands neither before it nor among the seen ones. -/
theorem uniqueAfter_concat (seen as : List α) (a : α) :
    uniqueAfter seen (as ++ [a])
      = if a ∈ seen ∨ a ∈ as then uniqueAfter seen as else uniqueAfter seen as ++ [a] := by
  induction as generalizing seen with
  | nil => by_cases h : a ∈ seen <;> simp [uniqueAfter, h]
  | cons b as ih =>
    by_cases hb : b ∈ seen
    · have hiff : (a ∈ seen ∨ a ∈ b :: as) ↔ (a ∈ seen ∨ a ∈ as) := by
        by_cases hab : a = b <;> simp [hab, hb]
      simp only [List.cons_append, uniqueAfter, hb, if_true, ih, hiff]
    · have hiff : (a ∈ b :: seen ∨ a ∈ as) ↔ (a ∈ seen ∨ a ∈ b :: as) := by
        simp only [List.mem_cons, or_left_comm, or_assoc]
      simp only [List.cons_append, uniqueAfter, hb, if_false, ih, hiff]
      split <;> rfl

/-- `unique` keeps exactly the first occurrences. -/
theorem firsts_unique (as : List α) : Firsts as (unique as) := by
  induction as using List.reverseRecOn with
  | nil => exact .nil
  | append_singleton as a ih =>
    unfold unique at ih ⊢
    rw [uniqueAfter_concat]
    split
    · rename_i h
      exact .again (h.resolve_left List.not_mem_nil) ih
    · rename_i h
      exact .first (fun hmem => h (.inr hmem)) ih

theorem Firsts.eq_unique {as bs : List α} (h : Firsts as bs) : bs = unique as := by
  induction h with
  | nil => rfl
  | first hnew _ ih =>
    unfold unique at ih ⊢
    rw [uniqueAfter_concat, if_neg (by simpa using hnew), ih]
  | again hmem _ ih =>
    unfold unique at ih ⊢
    rw [uniqueAfter_concat, if_pos (.inr hmem), ih]

theorem unique_of_nodup {as : List α} (h : as.Nodup) : unique as = as :=
  (firsts_unique as).eq_of_nodup h

end PageQueries
