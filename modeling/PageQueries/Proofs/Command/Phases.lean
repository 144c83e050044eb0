import PageQueries.Proofs.Command.Output
import PageQueries.Proofs.Preprocessor.Phases
import PageQueries.Proofs.Store.Corruption

/-!
# What the phases leave in the tree

The command runs the phases with the default hooks, which extract the queries of
every page. So a managed page has one markup and, with a given script, one
script; both are determined by the page's text, its key and the settings
(`markupOf`, `queriesOf`). Each action of the command is described by the trees
it goes through: first the entry of the page is saved, if there is a folder for
it, and then the outputs are written.

Results:
* `prints_markup`: the markup phase saves the queries and puts out the markup.
* `prints_script`: over a tree that has the queries saved, the script phase
  puts out their script.
* `yields_build`: both phases at once save the queries and write both.
-/
namespace PageQueries

/-! ## Phases with the default hooks -/

namespace Preprocessor

variable {p : Preprocessor} {filename content : Text} {queries : Queries}

/-- The script phase over a store that has the queries. -/
theorem script_default (hm : p.handles filename = true) {attributes : List (Text × Json)}
    (hmodule : isModule attributes = false) {code : Text}
    (hc : Script.build (Hooks.default.routeKey filename) queries p.scriptOptions = .ok code)
    {store : Store} {warnings : List Warning}
    (hg : p.store.get (Hooks.default.routeKey filename)
      = (.ok (some (queries.map .text)), store, warnings)) (content : Text) :
    (p.script .default content filename attributes).answer = .ok (some (code ++ content)) ∧
      (p.script .default content filename attributes).after = { p with store } := by
  have hnot : (p.handles filename && !isModule attributes) = true := by rw [hm, hmodule]; rfl
  have hfound : p.store.get (Hooks.default.routeKey filename)
    = (.ok ((some queries).map (·.map .text)), store, warnings) := hg
  obtain ⟨code', hc', hanswer, hafter⟩ := script_eq content hnot hfound
  cases hc.symm.trans hc'
  exact ⟨hanswer, hafter⟩

end Preprocessor

/-- What a store was given for a key it gives back. -/
theorem Store.exists_get_set (store : Store) (key : Text) (queries : Queries)
    (hp : ∀ d, store = .disk d → Entry.Preserved d.codec key queries) :
    ∃ store', (store.set key queries).get key = (.ok (some (queries.map .text)), store', []) ∧
      ∀ d, store = .disk d → ∃ d', store' = .disk d' ∧ d'.files = (d.set key queries).files := by
  cases store with
  | memory m =>
    refine ⟨.memory { m.set key queries with counters := m.counters.hit }, ?_,
      fun d hd => (nomatch hd)⟩
    have hget : (m.set key queries).entries.get? key = some queries := by
      rw [MemoryStore.set, OrderedMap.get?_renew, if_pos rfl]
    simp only [Store.set, Store.get, MemoryStore.get, hget]
    rfl
  | disk d =>
    refine ⟨.disk { d.set key queries with counters := d.counters.hit }, ?_, ?_⟩
    · simp only [Store.set, Store.get, DiskStore.get_set d (hp d rfl)]
    · rintro d' ⟨⟩
      exact ⟨_, rfl, rfl⟩

namespace Command

open FileTree (Placed Wrote Free HasRoom)

/-- The queries of a page with the given text. -/
def queriesOf (content : Text) : Queries :=
  Preprocessor.queriesOf (Fence.extract Fence.defaultLanguage content)

/-- The markup of a page with the given text. -/
def markupOf (content : Text) : Text :=
  Preprocessor.withViews .default content (Fence.extract Fence.defaultLanguage content)

variable {codec : Codec} {t t' : FileTree} {s : Settings} {env : Environment} {i : Invocation}
  {content scriptContent : Text}

theorem markup_default (p : Preprocessor) {page : Path} (hm : p.handles page.text = true)
    (content : Text) :
    p.markup .default content page.text = ⟨.ok (some (markupOf content)),
      { p with store := p.store.set (keyOf page) (queriesOf content) }, []⟩ :=
  Preprocessor.markup_ok hm (Preprocessor.records_default _ _)

/-- The markup phase saves the queries of the page and puts out its markup. -/
theorem prints_markup (hs : Settings.ofEnvironment env (overrides i) = .ok s)
    (hm : s.manages i.file.text = true) (hpage : HoldsText t i.file content)
    {output : Option Target} (hvoid : output ≠ some .void) {ps : List Path}
    (hroom : RoomFor t (entriesOf s i.file ++ (outputFiles output ++ ps))) :
    ∃ out t₁ t₂, Prints (markup codec env i output) t 0 out t₂ ∧
      Saved codec s i.file (queriesOf content) t t₁ ∧
      PutOut (markupOf content) t₁ output out t₂ := by
  obtain ⟨u, hopened⟩ := exists_opened hroom
  have hphase := markup_default ⟨s, storeIn codec u s⟩ hm content
  have hset : ∀ d, storeIn codec u s = .disk d → ∃ d',
      (storeIn codec u s).set (keyOf i.file) (queriesOf content) = .disk d' ∧
        d'.files = (d.set (keyOf i.file) (queriesOf content)).files := by
    intro d hd
    rw [hd]
    exact ⟨_, rfl, rfl⟩
  obtain ⟨t₁, hsave, hsaved⟩ := hopened.exists_save (queriesOf content) hset
  obtain ⟨out, t₂, hput, hputOut⟩ := prints_writeOutput (hroom.saved hsaved) hvoid
    (markupOf content)
  refine ⟨out, t₁, t₂, ?_, hsaved, hputOut⟩
  have hrun : Yields (onPage codec s fun h p => p.markup h content i.file.text) u
      (some (markupOf content)) t₁ := by
    refine yields_onPage ?_ ?_
    · rw [hphase]
    · rw [hphase]
      exact hsave
  unfold markup
  refine ((hopened.yields_settings hs).prints (silent_settings env i)).bind ?_
  refine ((yields_readText (hopened.holdsText hpage)).prints (silent_readText _)).bind ?_
  simp only [hm, if_true]
  refine ((hopened.yields_checkEntry false).prints (silent_checkEntry s _ _)).bind ?_
  exact (hrun.prints (silent_onPage s _)).bind (hput.bind_pure fun _ => 0)

/-- Over a tree that has the queries of the page saved, the script phase puts out their script. -/
theorem prints_script (hs : Settings.ofEnvironment env (overrides i) = .ok s) {D : Path}
    (hd : s.storeDir = some D) (hm : s.manages i.file.text = true) {queries : Queries}
    (hp : Entry.Preserved (some codec) (keyOf i.file) queries) (hfolder : t.find D = .ok .folder)
    (hn : hasNul D = false)
    (hsaved : t.read (entryPath D i.file) = .ok (Entry.write (some codec) (keyOf i.file) queries))
    {code : Text} (hc : Script.build (keyOf i.file) queries ⟨s.pause, s.package⟩ = .ok code)
    {given : Option Path} (hscript : Supplies t given scriptContent) {context : Option Text}
    (hmodule : Preprocessor.isModule (attributesOf context) = false) {output : Option Target}
    (hvoid : output ≠ some .void) {ps : List Path} (hroom : RoomFor t (outputFiles output ++ ps)) :
    ∃ out t', Prints (Command.script codec env i given context output) t 0 out t' ∧
      PutOut (code ++ scriptContent) t output out t' := by
  have hopened : Opened s i.file t t :=
    .folder hd hn (FileTree.ensureFolders_of_folder hfolder) (Wrote.self hsaved).free
  have hstore := storeIn_folder codec t hd
  have hfile := FileTree.get?_filesOf hfolder (fileOf_ne_up (keyOf i.file)) hsaved
  have hget : (storeIn codec t s).get (keyOf i.file) = (.ok (some (queries.map .text)),
      .disk { DiskStore.onFiles (t.filesOf D) (some codec) with counters := Counters.zero.hit },
      []) := by
    rw [hstore]
    have hg := DiskStore.get_of_written (d := .onFiles (t.filesOf D) (some codec)) hfile hp
    simp only [Store.get, hg]
    rfl
  obtain ⟨hanswer, hafter⟩ := Preprocessor.script_default (p := ⟨s, storeIn codec t s⟩) hm hmodule
    hc hget scriptContent
  obtain ⟨out, t', hput, hputOut⟩ := prints_writeOutput hroom hvoid (code ++ scriptContent)
  refine ⟨out, t', ?_, hputOut⟩
  have hrun : Yields
      (onPage codec s fun h p => p.script h scriptContent i.file.text (attributesOf context)) t
      (some (code ++ scriptContent)) t := by
    refine yields_onPage hanswer ?_
    rw [hafter]
    refine hopened.yields_saveStore fun d hd => ?_
    cases hstore.symm.trans hd
    exact ⟨_, rfl, rfl⟩
  have hnot : (s.manages i.file.text && !Preprocessor.isModule (attributesOf context)) = true := by
    rw [hm, hmodule]
    rfl
  unfold Command.script
  refine ((hopened.yields_settings hs).prints (silent_settings env i)).bind ?_
  simp only [hd, Option.isNone_some, Bool.false_eq_true, if_false]
  refine ((yields_readOptional hscript).prints (silent_readOptional given)).bind ?_
  simp only [hnot, if_true]
  refine ((hopened.yields_checkEntry true).prints (silent_checkEntry s _ _)).bind ?_
  exact (hrun.prints (silent_onPage s _)).bind (hput.bind_pure fun _ => 0)

theorem preserved_storeIn {key : Text} {queries : Queries}
    (h : Entry.Preserved (some codec) key queries) (d : DiskStore)
    (hd : storeIn codec t s = .disk d) : Entry.Preserved d.codec key queries := by
  unfold storeIn at hd
  split at hd
  · cases hd
  · cases hd
    exact h

/-- Both phases at once save the queries of the page and write its markup and its script. -/
theorem yields_build (hs : Settings.ofEnvironment env (overrides i) = .ok s)
    (hm : s.manages i.file.text = true) (hpage : HoldsText t i.file content)
    (hp : Entry.Preserved (some codec) (keyOf i.file) (queriesOf content)) {code : Text}
    (hc : Script.build (keyOf i.file) (queriesOf content) ⟨s.pause, s.package⟩ = .ok code)
    {given folder : Path} (hscript : HoldsText t given scriptContent)
    (hroom : RoomFor t (entriesOf s i.file
      ++ [(outputsOf i.file folder).1, (outputsOf i.file folder).2])) :
    ∃ t₁ t₂ t₃, Yields (build codec env i (some given) (.path folder)) t 0 t₃ ∧
      Saved codec s i.file (queriesOf content) t t₁ ∧
      Placed t₁ (outputsOf i.file folder).1 (Utf8.encode (markupOf content)) t₂ ∧
      Placed t₂ (outputsOf i.file folder).2 (Utf8.encode (code ++ scriptContent)) t₃ := by
  obtain ⟨u, hopened⟩ := exists_opened hroom
  have hphase := markup_default ⟨s, storeIn codec u s⟩ hm content
  obtain ⟨store, hget, hfiles⟩ := (storeIn codec u s).exists_get_set (keyOf i.file)
    (queriesOf content) (preserved_storeIn hp)
  obtain ⟨hanswer, hafter⟩ := Preprocessor.script_default
    (p := ⟨s, (storeIn codec u s).set (keyOf i.file) (queriesOf content)⟩) hm
    (show Preprocessor.isModule [] = false from rfl) hc hget scriptContent
  have hprocess : Preprocessor.process .default ⟨s, storeIn codec u s⟩ content i.file.text
    scriptContent [] = ⟨_, _, _⟩ := Preprocessor.process_ok hphase
  obtain ⟨t₁, hsave, hsaved⟩ := hopened.exists_save (queriesOf content) hfiles
  have hrun : Yields (onPage codec s fun h p => p.process h content i.file.text scriptContent []) u
      (some (markupOf content), some (code ++ scriptContent)) t₁ := by
    refine yields_onPage ?_ ?_
    · rw [hprocess]
      simp only [hanswer, Except.map]
    · rw [hprocess]
      simp only [hafter]
      exact hsave
  have houts := hroom.saved hsaved
  have hnul := hasNul_parent (houts.noNul _ List.mem_cons_self)
  obtain ⟨t₁', hmake, hroom₁, hplace⟩ := houts.room.exists_made
  rw [outputsOf, Path.parent_child] at hmake hnul
  obtain ⟨_, t₂, hwrite₁, hplaced₁⟩ := prints_writeText ⟨houts.noNul, hroom₁⟩ (markupOf content)
  obtain ⟨_, t₃, hwrite₂, hplaced₂⟩ := prints_writeText (houts.placed (hplace hplaced₁))
    (code ++ scriptContent)
  refine ⟨t₁, t₂, t₃, ?_, hsaved, hplace hplaced₁, hplaced₂⟩
  unfold build
  refine (hopened.yields_settings hs).bind ?_
  refine (yields_readText (hopened.holdsText hpage)).bind ?_
  refine (yields_readText (hopened.holdsText hscript)).bind ?_
  simp only [hm, if_true]
  refine (hopened.yields_checkEntry false).bind (hrun.bind ?_)
  exact (yields_changeTree hnul hmake).bind (hwrite₁.yields.bind (hwrite₂.yields.bind (.pure _ _)))

end Command

end PageQueries
