import PageQueries.Command.Basic
import PageQueries.Proofs.FileTree.Folder
import PageQueries.Proofs.Path
import PageQueries.Proofs.Store.FileName

/-!
# Steps of a run

`Yields x t a t'` says that the part `x` of a run, started with the file tree
`t`, is not broken off, gives `a` and leaves the tree `t'`, whatever has been
printed and warned of before. Parts that follow one another are put together by
`Yields.bind`; each of the command's own steps has one lemma, which says what it
takes from the tree and what it does to it.
-/
namespace PageQueries.Command

open FileTree (Placed Wrote Free HasRoom)

/-- From the first tree the part of a run gets to the second tree with a value. -/
def Yields {α : Type} (x : Run α) (t : FileTree) (a : α) (t' : FileTree) : Prop :=
  ∀ s : Progress, s.tree = t → ∃ s' : Progress, x.run.run s = (.ok a, s') ∧ s'.tree = t'

variable {α β : Type} {t t' t'' : FileTree} {p : Path} {codec : Codec}

namespace Yields

theorem pure (a : α) (t : FileTree) : Yields (Pure.pure a) t a t := fun s hs => ⟨s, rfl, hs⟩

theorem bind {x : Run α} {f : α → Run β} {a : α} {b : β} (hx : Yields x t a t')
    (hf : Yields (f a) t' b t'') : Yields (x >>= f) t b t'' := by
  intro s hs
  obtain ⟨s', hxs, hs'⟩ := hx s hs
  obtain ⟨s'', hfs, hs''⟩ := hf s' hs'
  refine ⟨s'', ?_, hs''⟩
  rw [ExceptT.run_bind, StateT.run_bind, hxs]
  exact hfs

/-- The tree may be looked at on the way. -/
theorem look {f : Progress → Run β} {b : β} (h : ∀ s, s.tree = t → Yields (f s) t b t') :
    Yields (get >>= f) t b t' := fun s hs => h s hs s hs

end Yields

theorem yields_warn (ws : List Warning) (t : FileTree) : Yields (warn ws) t () t :=
  fun _ hs => ⟨_, rfl, hs⟩

/-! ## Paths -/

theorem hasNul_parent (h : hasNul p = false) : hasNul p.parent = false := by
  rw [hasNul, List.contains_eq_mem, decide_eq_false_iff_not] at h ⊢
  exact fun hc => h (Path.mem_text_of_mem_parent hc (by decide))

theorem yields_onTree (hn : hasNul p = false) {f : FileTree → Path → Except FileError α} {a : α}
    (hf : f t p = .ok a) : Yields (onTree p f) t a t := by
  unfold onTree
  simp only [hn, Bool.false_eq_true, if_false]
  refine .look fun s hs => ?_
  rw [hs, hf]
  exact .pure a t

theorem yields_changeTree (hn : hasNul p = false)
    {f : FileTree → Path → Except FileError FileTree} (hf : f t p = .ok t') :
    Yields (changeTree p f) t () t' :=
  (yields_onTree hn hf).bind fun _ _ => ⟨_, rfl, rfl⟩

/-- The path leads to a file that holds the text in UTF-8, with line ends of any kind. -/
structure HoldsText (t : FileTree) (p : Path) (content : Text) : Prop where
  noNul : hasNul p = false
  read : ∃ bytes raw, t.read p = .ok bytes ∧ Utf8.decode bytes = .ok raw ∧
    Text.unifyLineEnds raw = content

theorem yields_readText {content : Text} (h : HoldsText t p content) :
    Yields (readText p) t content t := by
  obtain ⟨hn, bytes, raw, hr, hd, hraw⟩ := h
  refine (yields_onTree hn hr).bind ?_
  rw [hd, ← hraw]
  exact .pure _ _

theorem HoldsText.congr {content : Text} (h : HoldsText t p content)
    (hr : ∀ {bytes}, t.read p = .ok bytes → t'.read p = .ok bytes) : HoldsText t' p content := by
  obtain ⟨hn, bytes, raw, hb, hd, hraw⟩ := h
  exact ⟨hn, bytes, raw, hr hb, hd, hraw⟩

theorem HoldsText.exists_find {content : Text} (h : HoldsText t p content) :
    ∃ node, t.find p = .ok node := by
  obtain ⟨bytes, raw, hread, -⟩ := h.read
  exact ⟨_, FileTree.read_eq_ok_iff.mp hread⟩

/-- The text that a file holds, if one is given, else the empty one. -/
inductive Supplies (t : FileTree) : Option Path → Text → Prop
  | nothing : Supplies t none []
  | file {p : Path} {content : Text} (h : HoldsText t p content) : Supplies t (some p) content

theorem yields_readOptional {given : Option Path} {content : Text} (h : Supplies t given content) :
    Yields (readOptional given) t content t := by
  cases h with
  | nothing => exact .pure [] t
  | file h => exact yields_readText h

/-- Files can be written at the paths, one after the other. -/
structure RoomFor (t : FileTree) (ps : List Path) : Prop where
  noNul : ∀ p ∈ ps, hasNul p = false
  room : t.HasRoom ps

theorem RoomFor.placed {ps : List Path} (h : RoomFor t (p :: ps)) {content : Bytes}
    (hp : Placed t p content t') : RoomFor t' ps :=
  ⟨fun q hq => h.noNul q (List.mem_cons_of_mem _ hq), h.room.placed hp⟩

/-! ## The folder of stored queries -/

variable {s : Settings} {page D : Path} {queries : Queries}

/-- The route key of a page. -/
def keyOf (page : Path) : Text := Hooks.default.routeKey page.text

/-- The file of a page's entry, if there is a folder of stored queries. -/
def entriesOf (s : Settings) (page : Path) : List Path :=
  (s.storeDir.map (entryPath · page)).toList

theorem parent_entryPath (D page : Path) : (entryPath D page).parent = D := Path.parent_child _ _

theorem fileOf_ne_up (key : Text) : DiskStore.fileOf key ≠ ['.', '.'] := by
  intro h
  have hlen := congrArg List.length h
  simp only [DiskStore.fileOf, List.length_append, Digest.length_ofText, List.length_cons,
    List.length_nil] at hlen
  omega

/-- The second tree is the first with the folder of stored queries, if there is to be one, and the
entry of the page may be written there. -/
inductive Opened (s : Settings) (page : Path) (t : FileTree) : FileTree → Prop
  | memory (hd : s.storeDir = none) : Opened s page t t
  | folder {D : Path} {t' : FileTree} (hd : s.storeDir = some D) (hn : hasNul D = false)
      (hmake : t.ensureFolders D = .ok t') (hfree : Free t' (entryPath D page)) : Opened s page t t'

/-- The second tree is the first with the entry of the page, if there is a folder for it. -/
inductive Saved (codec : Codec) (s : Settings) (page : Path) (queries : Queries) (t : FileTree) :
    FileTree → Prop
  | memory (hd : s.storeDir = none) : Saved codec s page queries t t
  | folder {D : Path} {t' : FileTree} (hd : s.storeDir = some D)
      (hp : Placed t (entryPath D page) (Entry.write (some codec) (keyOf page) queries) t') :
      Saved codec s page queries t t'

theorem storeIn_folder (codec : Codec) (t : FileTree) {D : Path} (hd : s.storeDir = some D) :
    storeIn codec t s = .disk (.onFiles (t.filesOf D) (some codec)) := by
  rw [storeIn, hd]

theorem exists_opened {ps : List Path} (h : RoomFor t (entriesOf s page ++ ps)) :
    ∃ t', Opened s page t t' := by
  cases hd : s.storeDir with
  | none => exact ⟨t, .memory hd⟩
  | some D =>
    rw [entriesOf, hd] at h
    obtain ⟨t', hmake, hfree⟩ := h.room.exists_free
    have hn := hasNul_parent (h.noNul _ List.mem_cons_self)
    rw [parent_entryPath] at hmake hn
    exact ⟨t', .folder hd hn hmake hfree⟩

theorem RoomFor.saved {ps : List Path} (h : RoomFor t (entriesOf s page ++ ps))
    (hs : Saved codec s page queries t t') : RoomFor t' ps := by
  cases hs with
  | memory hd => rwa [entriesOf, hd] at h
  | folder hd hp =>
    rw [entriesOf, hd] at h
    exact RoomFor.placed h hp

namespace Opened

variable {u : FileTree}

theorem grows (h : Opened s page t u) : FileTree.Grows t u := by
  cases h with
  | memory => exact .refl t
  | folder hd hn hmake hfree => exact (FileTree.grows_ensureFolders hmake).1

theorem holdsText (h : Opened s page t u) {content : Text} (hp : HoldsText t p content) :
    HoldsText u p content := hp.congr h.grows.read

theorem yields_settings (h : Opened s page t u) {env : Environment} {i : Invocation}
    (hs : Settings.ofEnvironment env (overrides i) = .ok s) : Yields (settings env i) t s u := by
  unfold settings
  rw [hs]
  cases h with
  | memory hd =>
    simp only [hd]
    exact .pure _ _
  | folder hd hn hmake hfree =>
    simp only [hd]
    exact (yields_changeTree hn hmake).bind (.pure _ _)

theorem yields_checkEntry (h : Opened s page t u) (reading : Bool) :
    Yields (checkEntry s page reading) u () u := by
  unfold checkEntry
  cases h with
  | memory hd =>
    simp only [hd]
    exact .pure _ _
  | folder hd hn hmake hfree =>
    simp only [hd, Option.map_some]
    refine .look fun r hr => ?_
    rw [hr]
    split
    · rename_i hfind
      exact absurd (FileTree.find_eq_ok_iff.mp hfind).2 hfree.notFolder
    · rename_i hfind
      simp only [FileTree.find, hfree.place, bind, Except.bind] at hfind
      split at hfind <;> cases hfind
    · exact .pure _ _

/-- What the store of the run says after the entry was set is written to the tree. -/
theorem exists_save (h : Opened s page t u) (queries : Queries) {after : Store}
    (ha : ∀ d, storeIn codec u s = .disk d →
      ∃ d', after = .disk d' ∧ d'.files = (d.set (keyOf page) queries).files) :
    ∃ t', Yields (saveStore s (storeIn codec u s) after) u () t' ∧
      Saved codec s page queries t t' := by
  cases h with
  | memory hd =>
    refine ⟨t, ?_, .memory hd⟩
    simp only [saveStore, hd]
    exact .pure _ _
  | @folder D _ hd hn hmake hfree =>
    have hstore := storeIn_folder codec u hd
    obtain ⟨d', rfl, hfiles⟩ := ha _ hstore
    obtain ⟨t', hupdate, hw⟩ := FileTree.exists_update (FileTree.grows_ensureFolders hmake).2
      (fileOf_ne_up (keyOf page)) hfree (Entry.write (some codec) (keyOf page) queries)
    refine ⟨t', ?_, .folder hd ⟨u, ?_, hw⟩⟩
    · simp only [saveStore, hd, hstore]
      refine yields_changeTree hn ?_
      rw [hfiles]
      exact hupdate
    · rwa [parent_entryPath]

/-- A store whose files are as before is not written. -/
theorem yields_saveStore (h : Opened s page t u) {after : Store}
    (ha : ∀ d, storeIn codec u s = .disk d → ∃ d', after = .disk d' ∧ d'.files = d.files) :
    Yields (saveStore s (storeIn codec u s) after) u () u := by
  cases h with
  | memory hd =>
    simp only [saveStore, hd]
    exact .pure _ _
  | @folder D _ hd hn hmake hfree =>
    have hstore := storeIn_folder codec u hd
    obtain ⟨d', rfl, hfiles⟩ := ha _ hstore
    simp only [saveStore, hd, hstore]
    refine yields_changeTree hn ?_
    rw [hfiles]
    exact FileTree.update_self _ _ _

end Opened

/-- Phases are run on the page and the store is saved. -/
theorem yields_onPage {f : Hooks → Preprocessor → Outcome α} {a : α}
    (ha : (f .default ⟨s, storeIn codec t s⟩).answer = .ok a)
    (hs : Yields
      (saveStore s (storeIn codec t s) (f .default ⟨s, storeIn codec t s⟩).after.store) t () t') :
    Yields (onPage codec s f) t a t' := by
  unfold onPage
  refine .look fun r hr => ?_
  rw [hr]
  refine (yields_warn _ _).bind (hs.bind ?_)
  rw [ha]
  exact .pure _ _

end PageQueries.Command
