import Mathlib.Data.List.Basic
import PageQueries.OrderedMap

/-!
# Look-ups in ordered maps

`OrderedMap` changes its list of pairs in place (`insert`), by dropping a pair
(`erase`), and by both (`renew`). Here each change is described by the look-ups
after it, and by the pairs after it up to order, so that two maps that keep
their pairs in different orders can be compared.

Results:
* `Pairs.lookup_put`, `Pairs.lookup_erase`: a change is seen under its own key
  and nowhere else.
* `Pairs.put_perm`: putting a pair is dropping the old one and adding the new
  one, up to order.
* `Pairs.mem_collapse`: reading pairs makes up no pair.
* `OrderedMap.ofList_toList`: reading the pairs of a map gives the map back.
* `OrderedMap.ext_get?`: a map is known by the order of its keys and its
  look-ups.
-/
namespace PageQueries

namespace Pairs

variable {κ ν : Type} [DecidableEq κ]

section LookUp

-- Texts are compared as lists in some places and as keys in others: any lawful test will do.
variable {_ : BEq κ} [LawfulBEq κ]

theorem lookup_cons_eq_ite (k a : κ) (w : ν) (ps : List (κ × ν)) :
    ((a, w) :: ps).lookup k = if k = a then some w else ps.lookup k := by
  rw [List.lookup_cons]
  by_cases h : k = a
  · rw [if_pos h, beq_iff_eq.mpr h]
  · rw [if_neg h, beq_eq_false_iff_ne.mpr h]

omit [DecidableEq κ] in
theorem lookup_of_notMem {k : κ} {ps : List (κ × ν)} (h : k ∉ ps.map Prod.fst) :
    ps.lookup k = none := by
  refine List.lookup_eq_none_iff.mpr fun p hp => ?_
  have hne : k ≠ p.1 := fun e => h (e ▸ List.mem_map_of_mem hp)
  simpa using hne

theorem lookup_put (k k' : κ) (v : ν) (ps : List (κ × ν)) :
    (put k v ps).lookup k' = if k' = k then some v else ps.lookup k' := by
  induction ps with
  | nil => exact lookup_cons_eq_ite k' k v []
  | cons p ps ih =>
    obtain ⟨a, w⟩ := p
    by_cases ha : a = k
    · subst ha
      rw [put, if_pos rfl, lookup_cons_eq_ite, lookup_cons_eq_ite]
      by_cases h : k' = a <;> simp [h]
    · rw [put, if_neg ha, lookup_cons_eq_ite, lookup_cons_eq_ite, ih]
      by_cases hk : k' = a
      · subst hk
        simp [ha]
      · simp [hk]

theorem lookup_erase (k k' : κ) (ps : List (κ × ν)) :
    (erase k ps).lookup k' = if k' = k then none else ps.lookup k' := by
  induction ps with
  | nil => simp [erase]
  | cons p ps ih =>
    obtain ⟨a, w⟩ := p
    simp only [erase] at ih
    rw [erase, lookup_cons_eq_ite]
    by_cases ha : a = k
    · subst ha
      rw [List.filter_cons_of_neg (by simp), ih]
      by_cases h : k' = a <;> simp [h]
    · rw [List.filter_cons_of_pos (by simpa using ha), lookup_cons_eq_ite, ih]
      by_cases hk : k' = a
      · subst hk
        simp [ha]
      · simp [hk]

/-- With distinct keys, a pair is found exactly under its own key. -/
theorem lookup_eq_some_iff_mem {ps : List (κ × ν)} (h : (ps.map Prod.fst).Nodup) (k : κ) (v : ν) :
    ps.lookup k = some v ↔ (k, v) ∈ ps := by
  induction ps with
  | nil => simp
  | cons p ps ih =>
    obtain ⟨a, w⟩ := p
    simp only [List.map_cons, List.nodup_cons, List.mem_map, not_exists, not_and] at h
    obtain ⟨hnot, hps⟩ := h
    rw [lookup_cons_eq_ite]
    by_cases hk : k = a
    · subst hk
      have hno : (k, v) ∉ ps := fun hm => hnot _ hm rfl
      simp only [if_true, Option.some.injEq, List.mem_cons, Prod.mk.injEq, true_and, hno,
        or_false]
      exact eq_comm
    · simp [hk, ih hps]

end LookUp

theorem put_of_notMem {k : κ} {ps : List (κ × ν)} (h : k ∉ ps.map Prod.fst) (v : ν) :
    put k v ps = ps ++ [(k, v)] := by
  induction ps with
  | nil => rfl
  | cons p ps ih =>
    simp only [List.map_cons, List.mem_cons, not_or] at h
    rw [put, if_neg (fun e => h.1 e.symm), ih h.2, List.cons_append]

theorem notMem_keys_erase (k : κ) (ps : List (κ × ν)) : k ∉ (erase k ps).map Prod.fst := by
  simp [erase]

theorem erase_of_notMem {k : κ} {ps : List (κ × ν)} (h : k ∉ ps.map Prod.fst) :
    erase k ps = ps := by
  refine List.filter_eq_self.mpr fun p hp => ?_
  have hne : p.1 ≠ k := fun e => h (e ▸ List.mem_map_of_mem hp)
  simpa using hne

/-- Putting a pair is dropping the old one and adding the new one, up to order. -/
theorem put_perm {k : κ} {ps : List (κ × ν)} (h : (ps.map Prod.fst).Nodup) (v : ν) :
    (put k v ps).Perm ((k, v) :: erase k ps) := by
  induction ps with
  | nil => exact List.Perm.refl _
  | cons p ps ih =>
    obtain ⟨a, w⟩ := p
    simp only [List.map_cons, List.nodup_cons] at h
    by_cases ha : a = k
    · subst ha
      have he : erase a ((a, w) :: ps) = ps := by
        rw [erase, List.filter_cons_of_neg (by simp)]
        exact erase_of_notMem h.1
      rw [put, if_pos rfl, he]
    · have he : erase k ((a, w) :: ps) = (a, w) :: erase k ps :=
        List.filter_cons_of_pos (by simpa using ha)
      rw [put, if_neg ha, he]
      exact ((ih h.2).cons _).trans (List.Perm.swap _ _ _)

theorem mem_put {k : κ} {v : ν} {p : κ × ν} {ps : List (κ × ν)} (h : p ∈ put k v ps) :
    p = (k, v) ∨ p ∈ ps := by
  induction ps with
  | nil => exact .inl (List.mem_singleton.mp h)
  | cons q ps ih =>
    by_cases hq : q.1 = k
    · rw [put, if_pos hq] at h
      exact (List.mem_cons.mp h).imp_right (List.mem_cons_of_mem _)
    · rw [put, if_neg hq] at h
      rcases List.mem_cons.mp h with rfl | h
      · exact .inr List.mem_cons_self
      · exact (ih h).imp_right (List.mem_cons_of_mem _)

/-- Reading pairs makes up no pair. -/
theorem mem_collapse {p : κ × ν} {ps : List (κ × ν)} (h : p ∈ collapse ps) : p ∈ ps := by
  suffices go : ∀ m : List (κ × ν), p ∈ ps.foldl (fun m q => put q.1 q.2 m) m → p ∈ m ∨ p ∈ ps by
    exact (go [] h).resolve_left List.not_mem_nil
  clear h
  induction ps with
  | nil => exact fun m hm => .inl hm
  | cons q ps ih =>
    intro m hm
    rcases ih _ hm with hput | hps
    · rcases mem_put hput with rfl | hm
      · exact .inr List.mem_cons_self
      · exact .inl hm
    · exact .inr (List.mem_cons_of_mem _ hps)

/-- Pairs with distinct keys are read as they are. -/
theorem collapse_of_nodup {ps : List (κ × ν)} (h : (ps.map Prod.fst).Nodup) : collapse ps = ps := by
  suffices go : ∀ m : List (κ × ν), ((m ++ ps).map Prod.fst).Nodup →
      ps.foldl (fun m p => put p.1 p.2 m) m = m ++ ps from go [] (by simpa using h)
  clear h
  induction ps with
  | nil => exact fun m _ => by simp
  | cons p ps ih =>
    intro m hm
    have hp : p.1 ∉ m.map Prod.fst := by
      intro hin
      rw [List.map_append, List.nodup_append] at hm
      exact hm.2.2 _ hin p.1 (by simp) rfl
    rw [List.foldl_cons, put_of_notMem hp, ih _ (by simpa using hm), List.append_assoc]
    rfl

/-- Dropping a key commutes with a renaming of keys that tells the key from the others. -/
theorem erase_map {κ' ν' : Type} [DecidableEq κ'] (f : κ → κ') (g : κ × ν → ν') (k : κ)
    (ps : List (κ × ν)) (hf : ∀ p ∈ ps, f p.1 = f k → p.1 = k) :
    erase (f k) (ps.map fun p => (f p.1, g p)) = (erase k ps).map fun p => (f p.1, g p) := by
  rw [erase, erase, List.filter_map]
  congr 1
  refine List.filter_congr fun p hp => ?_
  by_cases h : p.1 = k
  · simp [h]
  · have : f p.1 ≠ f k := fun e => h (hf p hp e)
    simp [h, this]

end Pairs

namespace OrderedMap

variable {κ ν : Type}

variable [DecidableEq κ]

theorem get?_eq_some_iff (m : OrderedMap κ ν) (k : κ) (v : ν) :
    m.get? k = some v ↔ (k, v) ∈ m.toList :=
  Pairs.lookup_eq_some_iff_mem m.nodup k v

theorem get?_insert (m : OrderedMap κ ν) (k k' : κ) (v : ν) :
    (m.insert k v).get? k' = if k' = k then some v else m.get? k' :=
  Pairs.lookup_put k k' v m.toList

theorem get?_erase (m : OrderedMap κ ν) (k k' : κ) :
    (m.erase k).get? k' = if k' = k then none else m.get? k' :=
  Pairs.lookup_erase k k' m.toList

theorem get?_renew (m : OrderedMap κ ν) (k k' : κ) (v : ν) :
    (m.renew k v).get? k' = if k' = k then some v else m.get? k' := by
  rw [renew, get?_insert, get?_erase]
  split <;> rfl

/-- Renewing a key moves its pair to the end. -/
theorem toList_renew (m : OrderedMap κ ν) (k : κ) (v : ν) :
    (m.renew k v).toList = Pairs.erase k m.toList ++ [(k, v)] :=
  Pairs.put_of_notMem (Pairs.notMem_keys_erase k m.toList) v

theorem isSome_get?_iff (m : OrderedMap κ ν) (k : κ) : (m.get? k).isSome ↔ k ∈ m.keys := by
  simp [get?, keys, List.lookup_isSome_iff]

theorem get?_eq_none_iff (m : OrderedMap κ ν) (k : κ) : m.get? k = none ↔ k ∉ m.keys := by
  rw [← isSome_get?_iff, Option.not_isSome_iff_eq_none]

/-- Dropping a key that is not there changes nothing. -/
theorem erase_of_get?_eq_none {m : OrderedMap κ ν} {k : κ} (h : m.get? k = none) :
    m.erase k = m :=
  OrderedMap.ext (Pairs.erase_of_notMem ((get?_eq_none_iff m k).mp h))

theorem mem_foldl_erase (ks : List κ) (m : OrderedMap κ ν) (p : κ × ν) :
    p ∈ (ks.foldl erase m).toList ↔ p ∈ m.toList ∧ p.1 ∉ ks := by
  induction ks generalizing m with
  | nil => simp
  | cons k ks ih =>
    rw [List.foldl_cons, ih]
    simp only [erase, Pairs.erase, List.mem_filter, decide_eq_true_eq, List.mem_cons, not_or,
      ne_eq, and_assoc]

theorem get?_foldl_erase_eq_some_iff (ks : List κ) (m : OrderedMap κ ν) (k : κ) (v : ν) :
    (ks.foldl erase m).get? k = some v ↔ m.get? k = some v ∧ k ∉ ks := by
  rw [get?_eq_some_iff, get?_eq_some_iff, mem_foldl_erase]

theorem ofList_toList (m : OrderedMap κ ν) : ofList m.toList = m :=
  OrderedMap.ext (Pairs.collapse_of_nodup m.nodup)

theorem keys_insert (m : OrderedMap κ ν) (k : κ) (v : ν) :
    (m.insert k v).keys = if k ∈ m.keys then m.keys else m.keys ++ [k] :=
  Pairs.keys_put k v m.toList

/-- A map is its keys in their order, each with its value. -/
theorem toList_eq_filterMap (m : OrderedMap κ ν) :
    m.toList = m.keys.filterMap fun k => (m.get? k).map (k, ·) := by
  have hpair : ∀ p ∈ m.toList, (m.get? p.1).map (p.1, ·) = some p := fun p hp => by
    rw [(get?_eq_some_iff m p.1 p.2).mpr hp, Option.map_some]
  rw [keys, List.filterMap_map]
  exact List.filterMap_some.symm.trans (List.filterMap_congr fun p hp => (hpair p hp).symm)

theorem ext_get? {m m' : OrderedMap κ ν} (hk : m.keys = m'.keys)
    (hget : ∀ k, m.get? k = m'.get? k) : m = m' := by
  refine OrderedMap.ext ?_
  rw [toList_eq_filterMap m, toList_eq_filterMap m', hk]
  simp only [hget]

/-- Reading one more pair puts it into what was read before. -/
theorem ofList_concat (ps : List (κ × ν)) (p : κ × ν) :
    ofList (ps ++ [p]) = (ofList ps).insert p.1 p.2 := by
  refine OrderedMap.ext ?_
  simp only [ofList, insert, Pairs.collapse, List.foldl_append, List.foldl_cons, List.foldl_nil]

/-! ## Maps with their values changed -/

variable {ν' : Type} {f : ν → ν'}

omit [DecidableEq κ] in
theorem map_congr {g : ν → ν'} {m : OrderedMap κ ν} (h : ∀ p ∈ m.toList, f p.2 = g p.2) :
    m.map f = m.map g :=
  OrderedMap.ext (List.map_congr_left fun p hp => Prod.ext rfl (h p hp))

omit [DecidableEq κ] in
theorem keys_map (f : ν → ν') (m : OrderedMap κ ν) : (m.map f).keys = m.keys := by
  rw [keys, map, List.map_map]
  rfl

omit [DecidableEq κ] in
theorem size_map (f : ν → ν') (m : OrderedMap κ ν) : (m.map f).size = m.size := List.length_map _

theorem get?_map (f : ν → ν') (m : OrderedMap κ ν) (k : κ) :
    (m.map f).get? k = (m.get? k).map f := by
  have hlookup : ∀ ps : List (κ × ν),
      (ps.map fun p => (p.1, f p.2)).lookup k = (ps.lookup k).map f := by
    intro ps
    induction ps with
    | nil => rfl
    | cons p ps ih =>
      rw [List.map_cons, Pairs.lookup_cons_eq_ite, Pairs.lookup_cons_eq_ite, ih]
      split <;> rfl
  exact hlookup m.toList

theorem contains_map (f : ν → ν') (m : OrderedMap κ ν) (k : κ) :
    (m.map f).contains k = m.contains k := by
  rw [contains, get?_map, Option.isSome_map, contains]

theorem erase_map (f : ν → ν') (m : OrderedMap κ ν) (k : κ) :
    (m.map f).erase k = (m.erase k).map f :=
  OrderedMap.ext (Pairs.erase_map id (f ∘ Prod.snd) k m.toList fun _ _ h => h)

theorem renew_map (f : ν → ν') (m : OrderedMap κ ν) (k : κ) (v : ν) :
    (m.map f).renew k (f v) = (m.renew k v).map f := by
  have herase : Pairs.erase k (m.map f).toList
      = (Pairs.erase k m.toList).map fun p => (p.1, f p.2) := congrArg toList (erase_map f m k)
  have hmap : ((m.renew k v).map f).toList = (m.renew k v).toList.map fun p => (p.1, f p.2) := rfl
  refine OrderedMap.ext ?_
  rw [hmap, toList_renew, toList_renew, herase, List.map_append]
  rfl

end OrderedMap

end PageQueries
