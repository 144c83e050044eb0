import PageQueries.Proofs.Command.Phases

/-!
# Runs of the phases

A phase in the middle of a build process is a whole run of the command: the page
is looked for, the action is performed, and its result is printed or written.
`Ordered` says what the command line and the environment ask for. The runs share
nothing but the tree, so each is described by what it takes from the tree and by
what it leaves in it.

Results:
* `exists_markup_run`: the run of the markup phase leaves the entry of the page
  in the folder of stored queries.
* `exists_script_run`: where that entry is, the run of the script phase delivers
  the script.
-/
namespace PageQueries.Command

open FileTree (Placed)

variable {codec : Codec} {t t' : FileTree} {env : Environment} {i : Invocation}

/-! ## Whole runs -/

/-- A run whose page exists and whose action succeeds ends with the action's code, as the action
leaves it. -/
theorem run_of_perform {args : List Text} (ha : Invocation.ofArguments args = .ok i)
    (hn : hasNul i.file = false) {node : Node} (hf : t.find i.file = .ok node) {code : Nat}
    {s : Progress} (h : (perform codec env i).run.run ⟨t, [], []⟩ = (.ok code, s)) :
    runWith codec env t args = (.exit code, s) := by
  have hend :
      (RunEnd.exit <$> perform codec env i).run.run ⟨t, [], []⟩ = (.ok (.exit code), s) := by
    rw [ExceptT.run_map, StateT.run_map, h]
    rfl
  have hcatch : (tryCatch (RunEnd.exit <$> perform codec env i) conclude).run.run ⟨t, [], []⟩
      = (.ok (.exit code), s) := by
    rw [ExceptT.run_tryCatch, StateT.run_bind, hend]
    rfl
  have hlook : ∀ f : Progress → Run RunEnd,
      (get >>= f).run.run ⟨t, [], []⟩ = (f ⟨t, [], []⟩).run.run ⟨t, [], []⟩ := fun _ => rfl
  have hinvoke : (invoke codec env i).run.run ⟨t, [], []⟩ = (.ok (.exit code), s) := by
    unfold invoke
    simp only [hn, Bool.false_eq_true, if_false, hlook, hf]
    exact hcatch
  unfold runWith
  rw [ha]
  simp only [hinvoke]

/-- As `run_of_perform`, with the trees that the action goes through. -/
theorem exists_run {args : List Text} (ha : Invocation.ofArguments args = .ok i)
    (hn : hasNul i.file = false) {node : Node} (hf : t.find i.file = .ok node) {code : Nat}
    (hy : Yields (perform codec env i) t code t') :
    ∃ s, runWith codec env t args = (.exit code, s) ∧ s.tree = t' := by
  obtain ⟨s, hperform, hs⟩ := hy ⟨t, [], []⟩ rfl
  exact ⟨s, run_of_perform ha hn hf hperform, hs⟩

/-- As `exists_run`, with what the run prints. -/
theorem exists_printing_run {args : List Text} (ha : Invocation.ofArguments args = .ok i)
    (hn : hasNul i.file = false) {node : Node} (hf : t.find i.file = .ok node) {code : Nat}
    {out : Text} (hp : Prints (perform codec env i) t code out t') :
    ∃ s, runWith codec env t args = (.exit code, s) ∧ s.tree = t' ∧ s.output = out := by
  obtain ⟨s, hperform, hs, hout⟩ := hp ⟨t, [], []⟩ rfl
  exact ⟨s, run_of_perform ha hn hf hperform, hs, hout⟩

/-- The run has printed the text and nothing else, or has written it to its file. -/
def Delivered (output : Option Target) (text : Text) (s : Progress) : Prop :=
  match output with
  | none => s.output = text
  | some (.path p) => s.tree.read p = .ok (Utf8.encode text)
  | some .void => False

theorem PutOut.delivered {text : Text} {output : Option Target} {s : Progress}
    (h : PutOut text t output s.output s.tree) : Delivered output text s := by
  obtain ⟨tree, out, warnings⟩ := s
  cases h with
  | printed => rfl
  | written h => exact h.read

/-! ## The two phases -/

variable {args : List Text} {page D : Path} {s : Settings} {content text : Text}
  {output : Option Target} {ps : List Path}

/-- The command line asks for an action on the page, and with the settings that it gets the page is
managed and queries are stored in the folder. -/
structure Ordered (env : Environment) (args : List Text) (page D : Path) (action : Action)
    (s : Settings) : Prop where
  asked : ∃ dev folder, Invocation.ofArguments args = .ok ⟨dev, folder, page, action⟩ ∧
    Settings.ofEnvironment env (overrides ⟨dev, folder, page, action⟩) = .ok s
  storeDir : s.storeDir = some D
  managed : s.manages page.text = true

/-- The run of the markup phase, and what it leaves to the runs behind it. -/
theorem exists_markup_run (ho : Ordered env args page D (.markup output) s)
    (hpage : HoldsText t page content) (hvoid : output ≠ some .void)
    (hroom : RoomFor t (entryPath D page :: (outputFiles output ++ ps)))
    (hapart : ∀ p ∈ outputFiles output, t.destination (entryPath D page) ≠ t.destination p) :
    ∃ first, runWith codec env t args = (.exit 0, first) ∧ t.Kept first.tree ∧
      RoomFor first.tree ps ∧
      first.tree.find D = .ok .folder ∧
      first.tree.read (entryPath D page)
        = .ok (Entry.write (some codec) (keyOf page) (queriesOf content)) ∧
      Delivered output (markupOf content) first ∧
      ∀ {q bytes}, t.destination q ≠ t.destination (entryPath D page) →
        (∀ p ∈ outputFiles output, t.destination q ≠ t.destination p) →
        t.read q = .ok bytes → first.tree.read q = .ok bytes := by
  obtain ⟨⟨dev, folder, hargs, hsettings⟩, hdir, hmanaged⟩ := ho
  have hroom' : RoomFor t (entriesOf s page ++ (outputFiles output ++ ps)) := by
    rw [entriesOf, hdir]
    exact hroom
  obtain ⟨out, t₁, t₂, hprints, hsaved, hput⟩ :=
    prints_markup hsettings hmanaged hpage hvoid hroom'
  obtain ⟨node, hnode⟩ := hpage.exists_find
  obtain ⟨first, hfirst, rfl, rfl⟩ := exists_printing_run hargs hpage.noNul hnode hprints
  have hentry : Placed t (entryPath D page)
      (Entry.write (some codec) (keyOf page) (queriesOf content)) t₁ := by
    cases hsaved with
    | memory hd => cases hdir.symm.trans hd
    | folder hd hp =>
      cases hdir.symm.trans hd
      exact hp
  have hdest := FileTree.destination_congr hentry.kept.current
  have hfolder := hentry.folder
  rw [parent_entryPath] at hfolder
  have hother : ∀ {q bytes}, (∀ p ∈ outputFiles output, t.destination q ≠ t.destination p) →
      t₁.read q = .ok bytes → first.tree.read q = .ok bytes := by
    intro q bytes hq hr
    refine hput.read_other (fun p hp => ?_) hr
    rw [hdest, hdest]
    exact hq p hp
  exact ⟨first, hfirst, hentry.kept.trans hput.kept, hput.room (hroom.placed hentry),
    hput.kept.find_folder hfolder, hother hapart hentry.read, hput.delivered,
    fun hq hqs hr => hother hqs (hentry.read_other hq hr)⟩

/-- The run of the script phase over a tree that has the queries of the page stored. -/
theorem exists_script_run {given : Option Path} {context : Option Text}
    (ho : Ordered env args page D (.script given context output) s) (hn : hasNul page = false)
    {node : Node} (hf : t.find page = .ok node) (hnD : hasNul D = false)
    (hfolder : t.find D = .ok .folder) {queries : Queries}
    (hentry : t.read (entryPath D page) = .ok (Entry.write (some codec) (keyOf page) queries))
    (hp : Entry.Preserved (some codec) (keyOf page) queries) {code : Text}
    (hc : Script.build (keyOf page) queries ⟨s.pause, s.package⟩ = .ok code)
    (hscript : Supplies t given text)
    (hmodule : Preprocessor.isModule (attributesOf context) = false)
    (hvoid : output ≠ some .void) (hroom : RoomFor t (outputFiles output ++ ps)) :
    ∃ second, runWith codec env t args = (.exit 0, second) ∧
      Delivered output (code ++ text) second ∧
      ∀ {q bytes}, (∀ p ∈ outputFiles output, t.destination q ≠ t.destination p) →
        t.read q = .ok bytes → second.tree.read q = .ok bytes := by
  obtain ⟨⟨dev, folder, hargs, hsettings⟩, hdir, hmanaged⟩ := ho
  obtain ⟨out, t', hprints, hput⟩ := prints_script hsettings hdir hmanaged hp hfolder hnD hentry hc
    hscript hmodule hvoid hroom
  obtain ⟨second, hsecond, rfl, rfl⟩ := exists_printing_run hargs hn hf hprints
  exact ⟨second, hsecond, hput.delivered, hput.read_other⟩

end PageQueries.Command
