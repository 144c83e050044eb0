import PageQueries.Text.Basic

/-!
# Ordered maps

A map that keeps its keys in the order in which they came.  Putting a value under a key that is
present keeps the key's position; renewing it moves the key to the end.  The keys are distinct by
construction.
-/
namespace PageQueries

namespace Pairs

variable {κ ν : Type} [DecidableEq κ]

/-- Puts a value under a key: in the key's place if it is there, else at the end. -/
def put (k : κ) (v : ν) : List (κ × ν) → List (κ × ν)
  | [] => [(k, v)]
  | p :: ps => if p.1 = k then (k, v) :: ps else p :: put k v ps

/-- Drops the pair of a key. -/
def erase (k : κ) (ps : List (κ × ν)) : List (κ × ν) := ps.filter fun p => p.1 ≠ k

/-- Reads pairs one after another: a repeated key keeps its first position and takes its last
value. -/
def collapse (ps : List (κ × ν)) : List (κ × ν) := ps.foldl (fun m p => put p.1 p.2 m) []

theorem keys_put (k : κ) (v : ν) (ps : List (κ × ν)) :
    (put k v ps).map Prod.fst =
      if k ∈ ps.map Prod.fst then ps.map Prod.fst else ps.map Prod.fst ++ [k] := by
  induction ps with
  | nil => simp [put]
  | cons p ps ih =>
    by_cases h : p.1 = k
    · simp [put, h]
    · have h' : ¬ k = p.1 := fun e => h e.symm
      simp only [put, h, if_false, List.map_cons, ih, List.mem_cons, h', false_or]
      split <;> simp

theorem nodup_put {k : κ} {v : ν} {ps : List (κ × ν)} (h : (ps.map Prod.fst).Nodup) :
    ((put k v ps).map Prod.fst).Nodup := by
  rw [keys_put]
  split
  · exact h
  · next hk =>
    rw [List.nodup_append]
    exact ⟨h, by simp, fun a ha b hb => by
      simp only [List.mem_singleton] at hb
      exact fun e => hk (hb ▸ e ▸ ha)⟩

theorem nodup_erase {k : κ} {ps : List (κ × ν)} (h : (ps.map Prod.fst).Nodup) :
    ((erase k ps).map Prod.fst).Nodup :=
  h.sublist (List.Sublist.map _ List.filter_sublist)

theorem nodup_collapse (ps : List (κ × ν)) : ((collapse ps).map Prod.fst).Nodup := by
  suffices h : ∀ m : List (κ × ν), (m.map Prod.fst).Nodup →
      ((ps.foldl (fun m p => put p.1 p.2 m) m).map Prod.fst).Nodup from h [] (by simp)
  induction ps with
  | nil => exact fun m hm => hm
  | cons p ps ih => exact fun m hm => ih _ (nodup_put hm)

end Pairs

/-- A map whose keys are distinct and keep their order. -/
structure OrderedMap (κ ν : Type) where
  /-- The pairs, in the order of the keys. -/
  toList : List (κ × ν)
  nodup : (toList.map Prod.fst).Nodup

namespace OrderedMap

variable {κ ν : Type}

def keys (m : OrderedMap κ ν) : List κ := m.toList.map Prod.fst

def size (m : OrderedMap κ ν) : Nat := m.toList.length

def empty : OrderedMap κ ν := ⟨[], by simp⟩

instance : Inhabited (OrderedMap κ ν) := ⟨empty⟩

@[ext]
theorem ext {m m' : OrderedMap κ ν} (h : m.toList = m'.toList) : m = m' := by
  cases m; cases m'; simp_all

/-- The map with every value changed. -/
def map {ν' : Type} (f : ν → ν') (m : OrderedMap κ ν) : OrderedMap κ ν' :=
  ⟨m.toList.map fun p => (p.1, f p.2), by simpa [Function.comp_def] using m.nodup⟩

variable [DecidableEq κ]

def get? (m : OrderedMap κ ν) (k : κ) : Option ν := m.toList.lookup k

def contains (m : OrderedMap κ ν) (k : κ) : Bool := (m.get? k).isSome

/-- Puts a value under a key; a key that is present keeps its position. -/
def insert (m : OrderedMap κ ν) (k : κ) (v : ν) : OrderedMap κ ν :=
  ⟨Pairs.put k v m.toList, Pairs.nodup_put m.nodup⟩

def erase (m : OrderedMap κ ν) (k : κ) : OrderedMap κ ν :=
  ⟨Pairs.erase k m.toList, Pairs.nodup_erase m.nodup⟩

/-- Puts a value under a key and moves the key to the end. -/
def renew (m : OrderedMap κ ν) (k : κ) (v : ν) : OrderedMap κ ν := (m.erase k).insert k v

def ofList (ps : List (κ × ν)) : OrderedMap κ ν := ⟨Pairs.collapse ps, Pairs.nodup_collapse ps⟩

end OrderedMap

end PageQueries
