import PageQueries.Proofs.FileTree.Writing

/-!
# The files of a folder

A disk store sees the files of its folder as a map from names to contents, and
what it changes there is written back to the tree. The map has the files that
stand right below the folder, each once. Writing back touches the file that was
put into the map, and only if its content is new.

Results:
* `get?_filesAt`, `get?_filesOf`: what the map of a folder says.
* `update_self`, `update_insert`: what is written back after no change, and
  after a change of one file.
-/
namespace PageQueries.FileTree

variable {t : FileTree} {p : Path} {place : List Text} {name : Text} {content : Bytes}

/-! ## The map -/

/-- The file of a folder that a node of the tree is. -/
def fileBelow (place : List Text) (e : List Text × Node) : Option (Text × Bytes) :=
  match e.1.reverse, e.2 with
  | name :: above, .file content => if above.reverse = place then some (name, content) else none
  | _, _ => none

theorem filesAt_eq (t : FileTree) (place : List Text) :
    t.filesAt place = .ofList (t.nodes.toList.filterMap (fileBelow place)) := rfl

theorem fileBelow_eq_some_iff {e : List Text × Node} :
    fileBelow place e = some (name, content) ↔ e = (place ++ [name], .file content) := by
  obtain ⟨names, node⟩ := e
  unfold fileBelow
  constructor
  · intro h
    dsimp only at h
    split at h
    · rename_i name' above c hrev
      split at h
      · rename_i habove
        cases h
        rw [← List.reverse_reverse names, hrev, List.reverse_cons, habove]
      · cases h
    · cases h
  · intro h
    cases h
    simp

/-- The folder has each name once. -/
theorem nodup_filesBelow (t : FileTree) (place : List Text) :
    ((t.nodes.toList.filterMap (fileBelow place)).map Prod.fst).Nodup := by
  have hnodes : t.nodes.toList.Pairwise fun e e' => e.1 ≠ e'.1 :=
    List.pairwise_map.mp t.nodes.nodup
  refine List.pairwise_map.mpr (hnodes.filterMap _ fun e e' hne f hf f' hf' hname => hne ?_)
  rw [fileBelow_eq_some_iff.mp hf, fileBelow_eq_some_iff.mp hf', hname]

theorem get?_filesAt :
    (t.filesAt place).get? name = some content ↔
      t.at? (place ++ [name]) = some (.file content) := by
  have hcollapse := Pairs.collapse_of_nodup (nodup_filesBelow t place)
  have hat : t.at? (place ++ [name]) = t.nodes.get? (place ++ [name]) := by
    rw [at?, if_neg (by simp)]
  rw [filesAt_eq, OrderedMap.get?_eq_some_iff, hat, OrderedMap.get?_eq_some_iff]
  show _ ∈ Pairs.collapse _ ↔ _
  rw [hcollapse, List.mem_filterMap]
  constructor
  · rintro ⟨e, he, hf⟩
    rwa [fileBelow_eq_some_iff.mp hf] at he
  · exact fun h => ⟨_, h, fileBelow_eq_some_iff.mpr rfl⟩

/-- A file that can be read below a folder is in the folder's map. -/
theorem get?_filesOf (hp : t.find p = .ok .folder) (hname : name ≠ ['.', '.'])
    (hr : t.read (p.child name) = .ok content) : (t.filesOf p).get? name = some content := by
  have hn := (find_eq_ok_iff.mp (read_eq_ok_iff.mp hr)).2
  rw [destination_child hname] at hn
  rw [filesOf, (find_eq_ok_iff.mp hp).1]
  exact get?_filesAt.mpr hn

/-! ## Writing back -/

/-- Nothing is removed if every name stays. -/
theorem removed_eq_nil {before after : Directory}
    (h : ∀ name ∈ before.keys, after.contains name = true) :
    before.keys.filter (!after.contains ·) = [] := by
  refine List.filter_eq_nil_iff.mpr fun name hn => ?_
  rw [h name hn]
  decide

theorem update_self (t : FileTree) (p : Path) (files : Directory) :
    t.update p files files = .ok t := by
  have hremoved : files.keys.filter (!files.contains ·) = [] :=
    removed_eq_nil fun name hn => (OrderedMap.isSome_get?_iff files name).mpr hn
  have hchanged : (files.toList.filter fun f => files.get? f.1 ≠ some f.2) = [] := by
    refine List.filter_eq_nil_iff.mpr fun f hf => ?_
    simp [(OrderedMap.get?_eq_some_iff files f.1 f.2).mpr hf]
  rw [update, hremoved, hchanged]
  rfl

/-- The one file that was put into the map is the only one that may have changed. -/
theorem changed_insert (files : Directory) (name : Text) (content : Bytes) :
    ((files.insert name content).toList.filter fun f => files.get? f.1 ≠ some f.2) =
      if files.get? name = some content then [] else [(name, content)] := by
  have hothers : ((Pairs.erase name files.toList).filter fun f => files.get? f.1 ≠ some f.2)
      = [] := by
    refine List.filter_eq_nil_iff.mpr fun f hf => ?_
    have hmem : f ∈ files.toList := (List.mem_filter.mp hf).1
    simp [(OrderedMap.get?_eq_some_iff files f.1 f.2).mpr hmem]
  have hperm := (Pairs.put_perm files.nodup content (k := name)).filter
    fun f => files.get? f.1 ≠ some f.2
  rw [List.filter_cons, hothers] at hperm
  by_cases h : files.get? name = some content
  · rw [if_pos h]
    rw [if_neg (by simpa using h)] at hperm
    exact hperm.eq_nil
  · rw [if_neg h]
    rw [if_pos (by simpa using h)] at hperm
    exact List.perm_singleton.mp hperm

theorem update_insert (t : FileTree) (p : Path) (files : Directory) (name : Text)
    (content : Bytes) :
    t.update p files (files.insert name content) =
      if files.get? name = some content then .ok t else t.write (p.child name) content := by
  have hremoved : files.keys.filter (!(files.insert name content).contains ·) = [] := by
    refine removed_eq_nil fun name' hn => ?_
    rw [OrderedMap.contains, OrderedMap.get?_insert]
    split
    · rfl
    · exact (OrderedMap.isSome_get?_iff files name').mpr hn
  rw [update, hremoved, changed_insert]
  split
  · rfl
  · simp only [List.foldl_nil, List.foldlM_cons, List.foldlM_nil]
    exact bind_pure _

/-- A file that is put into a folder's map is in the tree afterwards, written or there before. -/
theorem exists_update (hp : t.find p = .ok .folder) (hname : name ≠ ['.', '.'])
    (hfree : Free t (p.child name)) (content : Bytes) :
    ∃ t', t.update p (t.filesOf p) ((t.filesOf p).insert name content) = .ok t' ∧
      Wrote t (p.child name) content t' := by
  rw [update_insert]
  split
  · rename_i hsame
    rw [filesOf, (find_eq_ok_iff.mp hp).1] at hsame
    have hat := get?_filesAt.mp hsame
    rw [← destination_child hname] at hat
    exact ⟨t, rfl, .self (read_eq_ok_iff.mpr (find_eq_ok_iff.mpr ⟨hfree.place, hat⟩))⟩
  · exact ⟨_, hfree.write content, hfree.put content⟩

end PageQueries.FileTree
