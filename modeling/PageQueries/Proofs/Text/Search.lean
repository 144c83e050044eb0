import PageQueries.Text.Basic

/-!
# Where a part first occurs

`indexFrom? part start t` is the least offset, from `start` on, at which `part`
stands in `t` (`indexFrom?_eq_some_iff`).

Two facts serve searches for a part that is known to occur. A search for a part
whose first character is nowhere before it cannot stop too early
(`indexFrom?_of_notMem`). And where a text is found again in front of itself, at
a shift of `w`, it repeats `w` all along, so it has no character that `w` has
not (`notMem_of_prefix_append`).
-/
namespace PageQueries.Text

variable {part t : Text} {start n : Nat}

theorem indexOf?_eq_some_iff :
    indexOf? part t = some n ↔
      n ≤ t.length ∧ part <+: t.drop n ∧ ∀ m, m < n → ¬ part <+: t.drop m := by
  induction t generalizing n with
  | nil =>
    rw [indexOf?]
    cases part with
    | nil =>
      constructor
      · intro h
        cases h
        exact ⟨Nat.le_refl 0, List.prefix_refl [], fun m hm => absurd hm (Nat.not_lt_zero m)⟩
      · rintro ⟨hle, -⟩
        rw [Nat.le_zero.mp hle]
        rfl
    | cons c part => simp
  | cons c t ih =>
    rw [indexOf?]
    by_cases hp : part <+: c :: t
    · rw [if_pos (List.isPrefixOf_iff_prefix.mpr hp), Option.some.injEq]
      constructor
      · rintro rfl
        exact ⟨Nat.zero_le _, hp, fun m hm => absurd hm (Nat.not_lt_zero m)⟩
      · rintro ⟨-, -, hfirst⟩
        cases n with
        | zero => rfl
        | succ n => exact absurd hp (hfirst 0 (Nat.succ_pos n))
    · rw [if_neg (mt List.isPrefixOf_iff_prefix.mp hp), Option.map_eq_some_iff]
      constructor
      · rintro ⟨k, hk, rfl⟩
        obtain ⟨hle, hat, hfirst⟩ := ih.mp hk
        refine ⟨Nat.succ_le_succ hle, hat, fun m hm => ?_⟩
        cases m with
        | zero => exact hp
        | succ m => exact hfirst m (Nat.lt_of_succ_lt_succ hm)
      · rintro ⟨hle, hat, hfirst⟩
        cases n with
        | zero => exact absurd hat hp
        | succ n =>
          refine ⟨n, ih.mpr ⟨Nat.le_of_succ_le_succ hle, hat, fun m hm => ?_⟩, rfl⟩
          exact hfirst (m + 1) (Nat.succ_lt_succ hm)

theorem indexFrom?_eq_some_iff :
    indexFrom? part start t = some n ↔
      start ≤ n ∧ n ≤ t.length ∧ part <+: t.drop n ∧
        ∀ m, start ≤ m → m < n → ¬ part <+: t.drop m := by
  rw [indexFrom?]
  by_cases hs : start ≤ t.length
  · rw [if_pos hs]
    simp only [Option.map_eq_some_iff, indexOf?_eq_some_iff, List.length_drop, List.drop_drop]
    constructor
    · rintro ⟨k, ⟨hle, hat, hfirst⟩, rfl⟩
      rw [Nat.add_comm] at hat
      refine ⟨Nat.le_add_left start k, by omega, hat, fun m hm hlt => ?_⟩
      have hm' := hfirst (m - start) (by omega)
      rwa [Nat.add_sub_cancel' hm] at hm'
    · rintro ⟨hn, hle, hat, hfirst⟩
      refine ⟨n - start, ⟨by omega, ?_, fun m hm => hfirst _ (by omega) (by omega)⟩, by omega⟩
      rwa [Nat.add_sub_cancel' hn]
  · rw [if_neg hs]
    refine iff_of_false (by simp) fun h => hs ?_
    exact Nat.le_trans h.1 h.2.1

/-- A part that occurs is found, there or earlier. -/
theorem exists_indexFrom? (hn : start ≤ n) (hle : n ≤ t.length) (hat : part <+: t.drop n) :
    ∃ m, indexFrom? part start t = some m ∧ m ≤ n := by
  induction n using Nat.strongRecOn with
  | ind n ih =>
    by_cases hfirst : ∀ m, start ≤ m → m < n → ¬ part <+: t.drop m
    · exact ⟨n, indexFrom?_eq_some_iff.mpr ⟨hn, hle, hat, hfirst⟩, Nat.le_refl n⟩
    · simp only [Classical.not_forall, Classical.not_not] at hfirst
      obtain ⟨m, hm, hlt, hearlier⟩ := hfirst
      obtain ⟨k, hk, hkm⟩ := ih m hlt hm (by omega) hearlier
      exact ⟨k, hk, by omega⟩

/-- What does not occur in the gap is found right behind it. -/
theorem indexFrom?_of_notMem {c : Char} {before gap after : Text} (hgap : c ∉ gap)
    (hstart : before.length ≤ start) (hend : start ≤ before.length + gap.length) :
    indexFrom? (c :: part) start (before ++ (gap ++ (c :: part ++ after)))
      = some (before.length + gap.length) := by
  rw [indexFrom?_eq_some_iff]
  refine ⟨hend, ?_, ?_, fun m hm hlt hat => hgap ?_⟩
  · simp only [List.length_append]
    omega
  · rw [← List.append_assoc, ← List.length_append, List.drop_left]
    exact List.prefix_append _ after
  · -- An earlier occurrence would begin inside the gap.
    obtain ⟨v, hv⟩ := hat
    have hc := congrArg List.head? hv
    rw [List.head?_drop, List.getElem?_append_right (Nat.le_trans hstart hm),
      List.getElem?_append_left (by omega)] at hc
    exact List.mem_of_getElem? hc.symm

/-- A text that stands in front of itself, shifted by `w`, repeats the characters of `w`. -/
theorem notMem_of_prefix_append {w u : Text} {c : Char} (hw : w ≠ []) (hc : c ∉ w)
    (h : u <+: w ++ u) : c ∉ u := by
  induction hn : u.length using Nat.strongRecOn generalizing u with
  | ind n ih =>
    rcases Nat.lt_or_ge w.length u.length with hlt | hge
    · obtain ⟨v, rfl⟩ : w <+: u :=
        List.prefix_of_prefix_length_le (List.prefix_append w u) h (Nat.le_of_lt hlt)
      have hv : v <+: w ++ v := (List.prefix_append_right_inj w).mp h
      have hpos := List.length_pos_iff.mpr hw
      rw [List.length_append] at hn
      rw [List.mem_append, not_or]
      exact ⟨hc, ih v.length (by omega) hv rfl⟩
    · have hu : u <+: w := List.prefix_of_prefix_length_le h (List.prefix_append w u) hge
      exact fun hm => hc (hu.subset hm)

end PageQueries.Text
