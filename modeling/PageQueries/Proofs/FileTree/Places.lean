import PageQueries.FileTree
import PageQueries.Proofs.OrderedMap

/-!
# Where paths lead

A path is followed name by name, and each name before the last must be a
folder. Where it leads to is a matter of the names alone (`destination`); the
tree only decides whether it leads there at all.

Trees are compared by what stands at their places. Of two trees,
* `Kept t t'`: a folder of the first is a folder of the second, and a file is a
  file, perhaps with other content;
* `Grows t t'`: what the first has, the second has too;
* `Alike t t'`: they differ in the contents of files at most.

A path that leads somewhere goes on leading there while things are kept, and
trees that are alike treat every path alike, faults included.
-/
namespace PageQueries.FileTree

variable {t t' t'' : FileTree} {p q : Path} {place : List Text}

/-! ## Destinations -/

/-- The place that names lead to from a place, whatever stands on the way. -/
def follow (place names : List Text) : List Text :=
  names.foldl
    (fun place name => if name = ['.', '.'] then place.dropLast else place ++ [name]) place

/-- The place that a path leads to, if it leads anywhere. -/
def destination (t : FileTree) (p : Path) : List Text :=
  follow (if p.root.isEmpty then t.current else []) p.parts

theorem eq_follow_of_walk {names place' : List Text} (h : t.walk place names = .ok place') :
    place' = follow place names := by
  induction names generalizing place with
  | nil => cases h; rfl
  | cons name names ih =>
    rw [walk] at h
    split at h
    · cases h
    · cases h
    · split at h
      · cases h
      · exact ih h

theorem eq_destination (h : t.placeOf p = .ok place) : place = t.destination p := by
  unfold placeOf at h
  split at h
  · cases h
  · exact eq_follow_of_walk h

theorem destination_congr (h : t'.current = t.current) (p : Path) :
    t'.destination p = t.destination p := by
  rw [destination, destination, h]

/-- A name below a path, unless it leads up, leads to that name below the path's place. -/
theorem destination_child {name : Text} (h : name ≠ ['.', '.']) :
    t.destination (p.child name) = t.destination p ++ [name] := by
  rw [destination, destination, Path.child, follow, follow, List.foldl_append, List.foldl_cons,
    List.foldl_nil, if_neg h]

/-! ## What stands at a place -/

theorem at?_root (t : FileTree) : t.at? [] = some .folder := rfl

theorem at?_put (t : FileTree) (hp : place ≠ []) (node : Node) (place' : List Text) :
    (t.put place node).at? place' = if place' = place then some node else t.at? place' := by
  cases place' with
  | nil => rw [if_neg (fun e => hp e.symm), at?_root, at?_root]
  | cons name names =>
    show (t.nodes.insert place node).get? _ = if _ then _ else t.nodes.get? _
    exact OrderedMap.get?_insert _ _ _ _

theorem find_eq_ok_iff {node : Node} :
    t.find p = .ok node ↔
      t.placeOf p = .ok (t.destination p) ∧ t.at? (t.destination p) = some node := by
  unfold find
  cases hp : t.placeOf p with
  | error e => simp [bind, Except.bind]
  | ok place =>
    rw [← eq_destination hp]
    cases hn : t.at? place <;> simp [bind, Except.bind, hn]

theorem read_eq_ok_iff {content : Bytes} :
    t.read p = .ok content ↔ t.find p = .ok (.file content) := by
  unfold read
  cases t.find p with
  | error e => simp
  | ok node => cases node <;> simp

/-! ## Trees in which things are kept -/

/-- Folders stay folders and files stay files. -/
structure Kept (t t' : FileTree) : Prop where
  current : t'.current = t.current
  folder : ∀ {place}, t.at? place = some .folder → t'.at? place = some .folder
  file : ∀ {place content}, t.at? place = some (.file content) →
    ∃ content', t'.at? place = some (.file content')

/-- What is there stays as it is. -/
structure Grows (t t' : FileTree) : Prop where
  current : t'.current = t.current
  at? : ∀ {place node}, t.at? place = some node → t'.at? place = some node

/-- Only the contents of files may differ. -/
structure Alike (t t' : FileTree) : Prop where
  there : Kept t t'
  back : Kept t' t

theorem Kept.refl (t : FileTree) : Kept t t := ⟨rfl, id, fun h => ⟨_, h⟩⟩

theorem Kept.trans (h : Kept t t') (h' : Kept t' t'') : Kept t t'' where
  current := h'.current.trans h.current
  folder hf := h'.folder (h.folder hf)
  file hf := by
    obtain ⟨_, hc⟩ := h.file hf
    exact h'.file hc

theorem Grows.refl (t : FileTree) : Grows t t := ⟨rfl, id⟩

theorem Grows.trans (h : Grows t t') (h' : Grows t' t'') : Grows t t'' :=
  ⟨h'.current.trans h.current, fun hn => h'.at? (h.at? hn)⟩

theorem Grows.kept (h : Grows t t') : Kept t t' := ⟨h.current, h.at?, fun hf => ⟨_, h.at? hf⟩⟩

theorem Alike.refl (t : FileTree) : Alike t t := ⟨.refl t, .refl t⟩

namespace Kept

theorem walk (h : Kept t t') {names place' : List Text} (hw : t.walk place names = .ok place') :
    t'.walk place names = .ok place' := by
  induction names generalizing place with
  | nil => exact hw
  | cons name names ih =>
    rw [FileTree.walk] at hw ⊢
    cases hn : t.at? place with
    | none => rw [hn] at hw; cases hw
    | some node =>
      rw [hn] at hw
      cases node with
      | file content => cases hw
      | folder =>
        rw [h.folder hn]
        simp only at hw ⊢
        split at hw
        · cases hw
        · rename_i hlen
          rw [if_neg hlen]
          exact ih hw

theorem placeOf (h : Kept t t') (hp : t.placeOf p = .ok place) : t'.placeOf p = .ok place := by
  unfold FileTree.placeOf at hp ⊢
  split at hp
  · cases hp
  · rename_i hlen
    rw [if_neg hlen, h.current]
    exact h.walk hp

theorem find_folder (h : Kept t t') (hf : t.find p = .ok .folder) : t'.find p = .ok .folder := by
  obtain ⟨hp, hn⟩ := find_eq_ok_iff.mp hf
  rw [find_eq_ok_iff, destination_congr h.current]
  exact ⟨h.placeOf hp, h.folder hn⟩

/-- A path that leads to something goes on leading to something. -/
theorem exists_find (h : Kept t t') {node : Node} (hf : t.find p = .ok node) :
    ∃ node', t'.find p = .ok node' := by
  obtain ⟨hp, hn⟩ := find_eq_ok_iff.mp hf
  have hp' : t'.placeOf p = .ok (t'.destination p) := by
    rw [destination_congr h.current]
    exact h.placeOf hp
  cases node with
  | folder => exact ⟨.folder, h.find_folder hf⟩
  | file content =>
    obtain ⟨content', hc⟩ := h.file hn
    rw [← destination_congr h.current p] at hc
    exact ⟨.file content', find_eq_ok_iff.mpr ⟨hp', hc⟩⟩

end Kept

/-- What is kept stays so when nodes of one kind are put at the same place. -/
theorem Kept.change (h : Kept t t') {u u' : FileTree} {node node' : Node}
    (hc : u.current = t.current) (hc' : u'.current = t'.current)
    (hu : ∀ q, u.at? q = if q = place then some node else t.at? q)
    (hu' : ∀ q, u'.at? q = if q = place then some node' else t'.at? q)
    (hfolder : node = .folder → node' = .folder)
    (hfile : ∀ content, node = .file content → ∃ content', node' = .file content') :
    Kept u u' := by
  refine ⟨by rw [hc', hc, h.current], fun {q} hq => ?_, fun {q content} hq => ?_⟩
  · rw [hu] at hq
    rw [hu']
    split at hq
    · rename_i hqp
      rw [if_pos hqp, hfolder (Option.some.inj hq)]
    · rename_i hqp
      rw [if_neg hqp]
      exact h.folder hq
  · rw [hu] at hq
    rw [hu']
    split at hq
    · rename_i hqp
      obtain ⟨content', hnode⟩ := hfile content (Option.some.inj hq)
      rw [if_pos hqp, hnode]
      exact ⟨content', rfl⟩
    · rename_i hqp
      rw [if_neg hqp]
      exact h.file hq

theorem Grows.find (h : Grows t t') {node : Node} (hf : t.find p = .ok node) :
    t'.find p = .ok node := by
  obtain ⟨hp, hn⟩ := find_eq_ok_iff.mp hf
  rw [find_eq_ok_iff, destination_congr h.current]
  exact ⟨h.kept.placeOf hp, h.at? hn⟩

theorem Grows.read (h : Grows t t') {content : Bytes} (hr : t.read p = .ok content) :
    t'.read p = .ok content :=
  read_eq_ok_iff.mpr (h.find (read_eq_ok_iff.mp hr))

theorem grows_put (hp : t.at? place = none) (node : Node) : Grows t (t.put place node) := by
  have hne : place ≠ [] := by
    rintro rfl
    rw [at?_root] at hp
    cases hp
  refine ⟨rfl, fun {place' node'} hn => ?_⟩
  rw [at?_put t hne, if_neg, hn]
  rintro rfl
  rw [hp] at hn
  cases hn

/-! ## Trees that are alike -/

namespace Alike

theorem at?_none (h : Alike t t') (hn : t.at? place = none) : t'.at? place = none := by
  cases hn' : t'.at? place with
  | none => rfl
  | some node =>
    cases node with
    | folder => rw [h.back.folder hn'] at hn; cases hn
    | file content =>
      obtain ⟨_, hc⟩ := h.back.file hn'
      rw [hc] at hn
      cases hn

theorem walk (h : Alike t t') (place names : List Text) :
    t'.walk place names = t.walk place names := by
  induction names generalizing place with
  | nil => rfl
  | cons name names ih =>
    rw [FileTree.walk, FileTree.walk]
    cases hn : t.at? place with
    | none => rw [h.at?_none hn]
    | some node =>
      cases node with
      | folder => simp only [h.there.folder hn, ih]
      | file content =>
        obtain ⟨_, hc⟩ := h.there.file hn
        rw [hc]

theorem placeOf (h : Alike t t') (p : Path) : t'.placeOf p = t.placeOf p := by
  rw [FileTree.placeOf, FileTree.placeOf, h.there.current, h.walk]

theorem put_folder (h : Alike t t') (hp : place ≠ []) :
    Alike (t.put place .folder) (t'.put place .folder) where
  there := h.there.change rfl rfl (at?_put t hp _) (at?_put t' hp _) id fun _ hf => (nomatch hf)
  back := h.back.change rfl rfl (at?_put t' hp _) (at?_put t hp _) id fun _ hf => (nomatch hf)

end Alike

end PageQueries.FileTree
