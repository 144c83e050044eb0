import PageQueries.Proofs.FileTree.Places

/-!
# Files in folders that are made if need be

A file is written in two steps: the folders above it are made, unless they
exist, and then the file is put into its folder. `HasRoom t paths` says that
files can be written at the paths in this way, one after the other. Whether
they can does not depend on what is written, so there is room for the next paths
whatever the first files hold (`HasRoom.placed`).

Results:
* `grows_ensureFolders`, `ensureFolders_of_folder`: making folders takes
  nothing away, leads to a folder, and is done once.
* `Wrote`: a tree with a file written; what `write` gives, and what a tree is
  itself if it has this very file (`Wrote.self`). `Placed`: both steps.
* `Alike.ensureFolders`: trees that are alike make the same folders or refuse
  for the same reason.
-/
namespace PageQueries.FileTree

variable {t t' u u' : FileTree} {p q : Path} {place : List Text}

/-! ## Folders -/

theorem placeOf_eq (h : t.placeOf p = .ok place) : t.placeOf p = .ok (t.destination p) := by
  rw [h, eq_destination h]

theorem grows_makeFolder (h : t.makeFolder p = .ok t') :
    Grows t t' ∧ t'.find p = .ok .folder := by
  unfold makeFolder at h
  cases hp : t.placeOf p with
  | error e => rw [hp] at h; cases h
  | ok place =>
    simp only [hp, bind, Except.bind] at h
    cases hn : t.at? place with
    | some node => rw [hn] at h; cases h
    | none =>
      rw [hn] at h
      cases h
      have hg := grows_put hn Node.folder
      obtain rfl := eq_destination hp
      have hne : t.destination p ≠ [] := by
        intro e
        rw [e, at?_root] at hn
        cases hn
      refine ⟨hg, find_eq_ok_iff.mpr ⟨hg.kept.placeOf hp, ?_⟩⟩
      rw [destination_congr hg.current, at?_put _ hne, if_pos rfl]

theorem find_of_isFolder (h : t.isFolder p = true) : t.find p = .ok .folder := by
  unfold isFolder at h
  split at h
  · assumption
  · cases h

theorem grows_ensureFolder (h : t.ensureFolder p = .ok t') :
    Grows t t' ∧ t'.find p = .ok .folder := by
  unfold ensureFolder at h
  split at h
  · rename_i hm
    cases h
    exact grows_makeFolder hm
  · split at h
    · rename_i hf
      cases h
      exact ⟨.refl t, find_of_isFolder hf.2⟩
    · cases h

theorem ensureFolders_of_ok (h : t.ensureFolder p = .ok t') : t.ensureFolders p = .ok t' := by
  rw [ensureFolders, h]

/-- The folders above come first where they are missing. -/
theorem ensureFolders_of_missing {e : FileError} (h : t.ensureFolder p = .error e)
    (hup : e.fault = .notFound ∧ p.parts ≠ []) :
    t.ensureFolders p = t.ensureFolders p.parent >>= (·.ensureFolder p) := by
  rw [ensureFolders, h]
  exact dif_pos hup

theorem ensureFolders_of_error {e : FileError} (h : t.ensureFolder p = .error e)
    (hup : ¬ (e.fault = .notFound ∧ p.parts ≠ [])) : t.ensureFolders p = .error e := by
  rw [ensureFolders, h]
  exact dif_neg hup

/-- Making folders takes nothing away and leads to a folder. -/
theorem grows_ensureFolders (h : t.ensureFolders p = .ok t') :
    Grows t t' ∧ t'.find p = .ok .folder := by
  induction p using ensureFolders.induct t generalizing t' with
  | case1 p t₁ he =>
    cases (ensureFolders_of_ok he).symm.trans h
    exact grows_ensureFolder he
  | case2 p e he hup ih =>
    rw [ensureFolders_of_missing he hup] at h
    cases ha : t.ensureFolders p.parent with
    | error e' => rw [ha] at h; cases h
    | ok t₁ =>
      rw [ha] at h
      obtain ⟨hg, hf⟩ := grows_ensureFolder h
      exact ⟨(ih ha).1.trans hg, hf⟩
  | case3 p e he hup => cases (ensureFolders_of_error he hup).symm.trans h

/-- A folder that exists is not made again. -/
theorem ensureFolders_of_folder (h : t.find p = .ok .folder) : t.ensureFolders p = .ok t := by
  obtain ⟨hp, hn⟩ := find_eq_ok_iff.mp h
  have hm : t.makeFolder p = .error .exists := by
    simp only [makeFolder, hp, hn, bind, Except.bind]
  have hi : t.isFolder p = true := by rw [isFolder, h]
  refine ensureFolders_of_ok ?_
  rw [ensureFolder, hm]
  simp only [hi, ne_eq, reduceCtorEq, not_false_eq_true, and_self, if_true]

/-! ## Files -/

/-- A file may be written where the path leads. -/
structure Free (t : FileTree) (p : Path) : Prop where
  place : t.placeOf p = .ok (t.destination p)
  notFolder : t.at? (t.destination p) ≠ some .folder

/-- The second tree is the first with the content in the file where the path leads. -/
structure Wrote (t : FileTree) (p : Path) (content : Bytes) (t' : FileTree) : Prop where
  free : Free t p
  current : t'.current = t.current
  at? : ∀ place, t'.at? place =
    if place = t.destination p then some (.file content) else t.at? place

theorem Free.destination_ne (h : Free t p) : t.destination p ≠ [] := by
  intro e
  have hn := h.notFolder
  rw [e] at hn
  exact hn rfl

theorem Free.put (h : Free t p) (content : Bytes) :
    Wrote t p content (t.put (t.destination p) (.file content)) :=
  ⟨h, rfl, at?_put t h.destination_ne _⟩

theorem Free.write (h : Free t p) (content : Bytes) :
    t.write p content = .ok (t.put (t.destination p) (.file content)) := by
  rw [FileTree.write, h.place]
  dsimp only
  split
  · rename_i hn
    exact absurd hn h.notFolder
  · rfl

theorem free_of_write {content : Bytes} (h : t.write p content = .ok t') : Free t p := by
  unfold FileTree.write at h
  split at h
  · cases h
  · rename_i place hp
    obtain rfl := eq_destination hp
    refine ⟨hp, fun hn => ?_⟩
    simp only [hn] at h
    cases h

/-- Whether a file may be written where the path leads. -/
def isFree (t : FileTree) (p : Path) : Bool :=
  match t.placeOf p with
  | .ok _ => !t.isFolder p
  | .error _ => false

theorem isFree_iff : t.isFree p = true ↔ Free t p := by
  unfold isFree
  cases hp : t.placeOf p with
  | error e => exact ⟨fun h => (nomatch h), fun h => (nomatch hp.symm.trans h.place)⟩
  | ok place =>
    have hplace := placeOf_eq hp
    have hfolder : t.isFolder p = true ↔ t.at? (t.destination p) = some .folder :=
      ⟨fun h => (find_eq_ok_iff.mp (find_of_isFolder h)).2, fun h => by
        rw [isFolder, find_eq_ok_iff.mpr ⟨hplace, h⟩]⟩
    rw [Bool.not_eq_true', ← Bool.not_eq_true, hfolder]
    exact ⟨fun h => ⟨hplace, h⟩, fun h => h.notFolder⟩

instance (t : FileTree) (p : Path) : Decidable (Free t p) := decidable_of_iff _ isFree_iff

namespace Wrote

variable {content : Bytes}

/-- A file with this content already need not be written. -/
theorem self (h : t.read p = .ok content) : Wrote t p content t := by
  obtain ⟨hp, hn⟩ := find_eq_ok_iff.mp (read_eq_ok_iff.mp h)
  refine ⟨⟨hp, by rw [hn]; exact fun e => (nomatch e)⟩, rfl, fun place => ?_⟩
  split
  · rename_i hpl
    rw [hpl, hn]
  · rfl

theorem kept (h : Wrote t p content t') : Kept t t' := by
  refine ⟨h.current, fun {place} hf => ?_, fun {place c} hf => ?_⟩
  · rw [h.at?, if_neg, hf]
    rintro rfl
    exact h.free.notFolder hf
  · rw [h.at?]
    split
    · exact ⟨content, rfl⟩
    · exact ⟨c, hf⟩

theorem read (h : Wrote t p content t') : t'.read p = .ok content := by
  rw [read_eq_ok_iff, find_eq_ok_iff, destination_congr h.current]
  exact ⟨h.kept.placeOf h.free.place, by rw [h.at?, if_pos rfl]⟩

/-- Files elsewhere keep their contents. -/
theorem read_other (h : Wrote t p content t') (hq : t.destination q ≠ t.destination p)
    {content' : Bytes} (hr : t.read q = .ok content') : t'.read q = .ok content' := by
  obtain ⟨hp, hn⟩ := find_eq_ok_iff.mp (read_eq_ok_iff.mp hr)
  rw [read_eq_ok_iff, find_eq_ok_iff, destination_congr h.current]
  exact ⟨h.kept.placeOf hp, by rw [h.at?, if_neg hq, hn]⟩

end Wrote

/-! ## Trees that are alike -/

/-- The same refusal, or trees that are alike. -/
inductive SameOutcome {ε : Type} : Except ε FileTree → Except ε FileTree → Prop
  | error (e : ε) : SameOutcome (.error e) (.error e)
  | ok {t t' : FileTree} (h : Alike t t') : SameOutcome (.ok t) (.ok t')

namespace SameOutcome

variable {ε : Type}

theorem exists_ok {r : Except ε FileTree} (h : SameOutcome (.ok t) r) :
    ∃ u, r = .ok u ∧ Alike t u := by
  generalize hx : Except.ok t = x at h
  cases h with
  | error e => cases hx
  | ok h => cases hx; exact ⟨_, rfl, h⟩

theorem eq_error {e : ε} {r : Except ε FileTree} (h : SameOutcome (.error e) r) :
    r = .error e := by
  generalize hx : Except.error e = x at h
  cases h with
  | error e => rfl
  | ok h => cases hx

theorem bind {x y : Except ε FileTree} {f : FileTree → Except ε FileTree} (h : SameOutcome x y)
    (hf : ∀ {t u}, Alike t u → SameOutcome (f t) (f u)) : SameOutcome (x >>= f) (y >>= f) := by
  cases h with
  | error e => exact .error e
  | ok h => exact hf h

end SameOutcome

namespace Alike

theorem makeFolder (h : Alike t u) (p : Path) : SameOutcome (t.makeFolder p) (u.makeFolder p) := by
  unfold FileTree.makeFolder
  rw [h.placeOf]
  cases hp : t.placeOf p with
  | error e => exact .error e
  | ok place =>
    simp only [Bind.bind, Except.bind]
    cases hn : t.at? place with
    | none =>
      rw [h.at?_none hn]
      refine .ok (h.put_folder ?_)
      rintro rfl
      rw [at?_root] at hn
      cases hn
    | some node =>
      cases node with
      | folder => rw [h.there.folder hn]; exact .error _
      | file content =>
        obtain ⟨_, hc⟩ := h.there.file hn
        rw [hc]
        exact .error _

theorem isFolder (h : Alike t u) (p : Path) : u.isFolder p = t.isFolder p := by
  rw [Bool.eq_iff_iff]
  constructor
  · intro hu
    rw [FileTree.isFolder, h.back.find_folder (find_of_isFolder hu)]
  · intro ht
    rw [FileTree.isFolder, h.there.find_folder (find_of_isFolder ht)]

theorem ensureFolder (h : Alike t u) (p : Path) :
    SameOutcome (t.ensureFolder p) (u.ensureFolder p) := by
  unfold FileTree.ensureFolder
  rw [h.isFolder]
  have hm := h.makeFolder p
  cases ht : t.makeFolder p with
  | ok t₁ =>
    rw [ht] at hm
    obtain ⟨u₁, hu, h'⟩ := hm.exists_ok
    rw [hu]
    exact .ok h'
  | error e =>
    rw [ht] at hm
    rw [hm.eq_error]
    dsimp only
    split
    · exact .ok h
    · exact .error _

/-- Trees that are alike make the same folders, or refuse for the same reason. -/
theorem ensureFolders (h : Alike t u) (p : Path) :
    SameOutcome (t.ensureFolders p) (u.ensureFolders p) := by
  induction p using ensureFolders.induct t with
  | case1 p t₁ he =>
    have hs := h.ensureFolder p
    rw [he] at hs
    obtain ⟨u₁, hu, h'⟩ := hs.exists_ok
    rw [ensureFolders_of_ok he, ensureFolders_of_ok hu]
    exact .ok h'
  | case2 p e he hup ih =>
    have hs := h.ensureFolder p
    rw [he] at hs
    rw [ensureFolders_of_missing he hup, ensureFolders_of_missing hs.eq_error hup]
    exact ih.bind fun h' => h'.ensureFolder p
  | case3 p e he hup =>
    have hs := h.ensureFolder p
    rw [he] at hs
    rw [ensureFolders_of_error he hup, ensureFolders_of_error hs.eq_error hup]
    exact .error e

theorem free (h : Alike t u) (hf : Free t p) : Free u p := by
  have hd := destination_congr h.there.current p
  refine ⟨by rw [h.placeOf, hd, hf.place], fun hn => hf.notFolder ?_⟩
  rw [hd] at hn
  exact h.back.folder hn

/-- Whatever is written at a path, the trees stay alike. -/
theorem wrote (h : Alike t u) {content content' : Bytes} (ht : Wrote t p content t')
    (hu : Wrote u p content' u') : Alike t' u' := by
  have hplace := hu.at?
  rw [destination_congr h.there.current] at hplace
  exact ⟨h.there.change ht.current hu.current ht.at? hplace (fun hf => (nomatch hf))
      fun _ _ => ⟨content', rfl⟩,
    h.back.change hu.current ht.current hplace ht.at? (fun hf => (nomatch hf))
      fun _ _ => ⟨content, rfl⟩⟩

end Alike

/-! ## Room for files -/

/-- Files can be written at the paths, one after the other, in folders that are made if need be. -/
def HasRoom : FileTree → List Path → Prop
  | _, [] => True
  | t, p :: ps =>
    ∃ t₁ t₂, t.ensureFolders p.parent = .ok t₁ ∧ t₁.write p [] = .ok t₂ ∧ HasRoom t₂ ps

/-- Below a folder that exists there is room for a file that may be written. -/
theorem HasRoom.cons {ps : List Path} (hfolder : t.isFolder p.parent = true) (hfree : Free t p)
    (h : HasRoom (t.put (t.destination p) (.file [])) ps) : HasRoom t (p :: ps) :=
  ⟨t, _, ensureFolders_of_folder (find_of_isFolder hfolder), hfree.write [], h⟩

theorem HasRoom.congr {ps : List Path} (h : Alike t u) (ht : HasRoom t ps) : HasRoom u ps := by
  induction ps generalizing t u with
  | nil => trivial
  | cons p ps ih =>
    obtain ⟨t₁, t₂, hmake, hwrite, hrest⟩ := ht
    have hs := h.ensureFolders p.parent
    rw [hmake] at hs
    obtain ⟨u₁, humake, h₁⟩ := hs.exists_ok
    have hfree := free_of_write hwrite
    have hufree := h₁.free hfree
    cases hwrite.symm.trans (hfree.write [])
    exact ⟨u₁, _, humake, hufree.write [], ih (h₁.wrote (hfree.put []) (hufree.put [])) hrest⟩

/-- The folders above the first path can be made, and a file can be written there. -/
theorem HasRoom.exists_free {ps : List Path} (h : HasRoom t (p :: ps)) :
    ∃ t₁, t.ensureFolders p.parent = .ok t₁ ∧ Free t₁ p := by
  obtain ⟨t₁, t₂, hmake, hwrite, -⟩ := h
  exact ⟨t₁, hmake, free_of_write hwrite⟩

/-- The second tree is the first with the folders above the path and the content in the file. -/
def Placed (t : FileTree) (p : Path) (content : Bytes) (t' : FileTree) : Prop :=
  ∃ t₁, t.ensureFolders p.parent = .ok t₁ ∧ Wrote t₁ p content t'

namespace Placed

variable {content : Bytes}

theorem kept (h : Placed t p content t') : Kept t t' := by
  obtain ⟨t₁, hmake, hw⟩ := h
  exact (grows_ensureFolders hmake).1.kept.trans hw.kept

theorem read (h : Placed t p content t') : t'.read p = .ok content := by
  obtain ⟨t₁, -, hw⟩ := h
  exact hw.read

theorem folder (h : Placed t p content t') : t'.find p.parent = .ok .folder := by
  obtain ⟨t₁, hmake, hw⟩ := h
  exact hw.kept.find_folder (grows_ensureFolders hmake).2

/-- Files elsewhere keep their contents. -/
theorem read_other (h : Placed t p content t') (hq : t.destination q ≠ t.destination p)
    {content' : Bytes} (hr : t.read q = .ok content') : t'.read q = .ok content' := by
  obtain ⟨t₁, hmake, hw⟩ := h
  have hg := (grows_ensureFolders hmake).1
  refine hw.read_other ?_ (hg.read hr)
  rwa [destination_congr hg.current, destination_congr hg.current]

end Placed

/-- Room for the paths behind the first is left, whatever the first file holds. -/
theorem HasRoom.placed {ps : List Path} (h : HasRoom t (p :: ps)) {content : Bytes}
    (hp : Placed t p content t') : HasRoom t' ps := by
  obtain ⟨t₁, t₂, hmake, hwrite, hrest⟩ := h
  obtain ⟨t₁', hmake', hw⟩ := hp
  cases hmake.symm.trans hmake'
  cases hwrite.symm.trans (hw.free.write [])
  exact hrest.congr ((Alike.refl t₁).wrote (hw.free.put []) hw)

/-- The folders above the first path may be made beforehand. -/
theorem HasRoom.exists_made {ps : List Path} (h : HasRoom t (p :: ps)) :
    ∃ t₁, t.ensureFolders p.parent = .ok t₁ ∧ HasRoom t₁ (p :: ps) ∧
      ∀ {content t'}, Placed t₁ p content t' → Placed t p content t' := by
  obtain ⟨t₁, t₂, hmake, hwrite, hrest⟩ := h
  have hagain := ensureFolders_of_folder (grows_ensureFolders hmake).2
  refine ⟨t₁, hmake, ⟨t₁, t₂, hagain, hwrite, hrest⟩, ?_⟩
  rintro content t' ⟨t₁', hmake', hw⟩
  cases hagain.symm.trans hmake'
  exact ⟨t₁, hmake, hw⟩

end PageQueries.FileTree
