import PageQueries.Proofs.Command.Arguments
import PageQueries.Proofs.Command.Runs
import PageQueries.Proofs.Settings.Override

/-!
# Separate phases agree with the one build

A page may be processed by two runs of the command, one for each phase, that
share nothing but a folder of stored queries, or by one run that passes the
queries on itself. Both write the same markup and the same script
(`phases_agree_with_build`), whatever the folder held before.

The runs ask the tree for no more than room for the files that they write, one
after the other (`RoomFor`), and that these get into no one's way: the markup
is not written over the script, which the second run still has to read, and
neither of them lies in the folder, where the entry of the page is written
(`Outside`). The page itself may be written over.
-/
namespace PageQueries.Command

variable {codec : Codec} {t : FileTree} {env : Environment} {i : Invocation} {base : Settings}

/-! ## Settings -/

/-- The settings of an invocation that overrides nothing but, perhaps, the folder of stored
queries. -/
theorem ofEnvironment_overrides {storeDir : Option Text}
    (hbase : Settings.ofEnvironment env [] = .ok base) (hdev : i.dev = false)
    (hd : i.storeDir = storeDir.map fun d => .path (.ofText d)) :
    Settings.ofEnvironment env (overrides i)
      = .ok { base with storeDir := (storeDir.map Path.ofText).or base.storeDir } := by
  unfold overrides
  rw [hdev, hd]
  cases storeDir with
  | none => exact hbase
  | some d =>
    have h := Settings.ofEnvironment_storeDir hbase (Path.ofText d).text
    rw [Path.ofText_text (Path.normal_ofText d)] at h
    exact h

/-! ## Agreement -/

/-- The second path leads neither to the place of the first nor to a place within it. -/
def Outside (t : FileTree) (folder p : Path) : Prop :=
  ¬ t.destination folder <+: t.destination p

instance (t : FileTree) (folder p : Path) : Decidable (Outside t folder p) :=
  inferInstanceAs (Decidable (¬ _ <+: _))

theorem Outside.ne_entry {D p page : Path} (h : Outside t D p) :
    t.destination p ≠ t.destination (entryPath D page) := by
  intro e
  rw [entryPath, FileTree.destination_child (fileOf_ne_up _)] at e
  exact h (e ▸ List.prefix_append _ _)

/-- The two outputs of a build are different files of one folder. -/
theorem destination_outputsOf (t : FileTree) (page folder : Path) :
    t.destination (outputsOf page folder).1 ≠ t.destination (outputsOf page folder).2 := by
  have hup : ∀ name : Text, 2 < name.length → name ≠ ['.', '.'] := by
    rintro name hlen rfl
    exact absurd hlen (by decide)
  rw [outputsOf, FileTree.destination_child (hup _ (by simp; omega)),
    FileTree.destination_child (hup _ (by simp))]
  simp

variable {D P S M J O : Text} {E : Option Text} {content scriptContent code : Text}

/-- The phases store queries in the folder that the command line names. -/
theorem ordered_of_base {args : List Text} {action : Action}
    (hbase : Settings.ofEnvironment env [] = .ok base)
    (hmanaged : base.manages (Path.ofText P).text = true)
    (ha : Invocation.ofArguments args
      = .ok ⟨false, some (.path (.ofText D)), .ofText P, action⟩) :
    Ordered env args (.ofText P) (.ofText D) action
      { base with storeDir := some (.ofText D) } where
  asked := ⟨_, _, ha, @ofEnvironment_overrides env _ base (some D) hbase rfl rfl⟩
  storeDir := rfl
  managed := hmanaged

/-- The runs of the two phases, and what they write. -/
theorem exists_phase_runs (hD : Arguments.IsWord D) (hP : Arguments.IsWord P)
    (hS : Arguments.IsWord S) (hM : Arguments.IsWord M) (hJ : Arguments.IsWord J)
    (hbase : Settings.ofEnvironment env [] = .ok base)
    (hmanaged : base.manages (Path.ofText P).text = true)
    (hpage : HoldsText t (.ofText P) content) (hscript : HoldsText t (.ofText S) scriptContent)
    (hpreserved : Entry.Preserved (some codec) (keyOf (.ofText P)) (queriesOf content))
    (hcode : Script.build (keyOf (.ofText P)) (queriesOf content) ⟨base.pause, base.package⟩
      = .ok code)
    (hroom : RoomFor t [entryPath (.ofText D) (.ofText P), .ofText M, .ofText J])
    (hmarkup : Outside t (.ofText D) (.ofText M)) (hgiven : Outside t (.ofText D) (.ofText S))
    (hMS : t.destination (.ofText M) ≠ t.destination (.ofText S))
    (hMJ : t.destination (.ofText M) ≠ t.destination (.ofText J)) :
    ∃ first second,
      runWith codec env t (Arguments.markupLine D P M) = (.exit 0, first) ∧
      runWith codec env first.tree (Arguments.scriptLine D P S J) = (.exit 0, second) ∧
      second.tree.read (.ofText M) = .ok (Utf8.encode (markupOf content)) ∧
      second.tree.read (.ofText J) = .ok (Utf8.encode (code ++ scriptContent)) := by
  have hfirstOrder := ordered_of_base hbase hmanaged (Arguments.ofArguments_markup hD hP hM)
  have hsecondOrder := ordered_of_base hbase hmanaged (Arguments.ofArguments_script hD hP hS hJ)
  obtain ⟨first, hfirst, hkept, hroom₁, hfolder, hentry, hwritten, hothers⟩ :=
    exists_markup_run hfirstOrder hpage (by simp) hroom
      (List.forall_mem_singleton.mpr hmarkup.ne_entry.symm)
  have hgiven₁ := hscript.congr (hothers hgiven.ne_entry (List.forall_mem_singleton.mpr hMS.symm))
  have hnul := hasNul_parent (hroom.noNul _ List.mem_cons_self)
  rw [parent_entryPath] at hnul
  obtain ⟨_, hbefore⟩ := hpage.exists_find
  obtain ⟨node, hnode⟩ := hkept.exists_find hbefore
  obtain ⟨second, hsecond, hbuilt, hothers₁⟩ := exists_script_run hsecondOrder hpage.noNul hnode
    hnul hfolder hentry hpreserved hcode (.file hgiven₁) rfl (by simp) hroom₁
  have hdest := FileTree.destination_congr hkept.current
  refine ⟨first, second, hfirst, hsecond, hothers₁ ?_ hwritten, hbuilt⟩
  exact List.forall_mem_singleton.mpr (by rwa [hdest, hdest])

/-- The run of a build, and what it writes. -/
theorem exists_build_run (hE : ∀ d ∈ E, Arguments.IsWord d) (hP : Arguments.IsWord P)
    (hS : Arguments.IsWord S) (hO : Arguments.IsWord O)
    (hbase : Settings.ofEnvironment env [] = .ok base)
    (hmanaged : base.manages (Path.ofText P).text = true)
    (hpage : HoldsText t (.ofText P) content) (hscript : HoldsText t (.ofText S) scriptContent)
    (hpreserved : Entry.Preserved (some codec) (keyOf (.ofText P)) (queriesOf content))
    (hcode : Script.build (keyOf (.ofText P)) (queriesOf content) ⟨base.pause, base.package⟩
      = .ok code)
    (hroom : RoomFor t
      (entriesOf { base with storeDir := (E.map Path.ofText).or base.storeDir } (.ofText P)
        ++ [(outputsOf (.ofText P) (.ofText O)).1, (outputsOf (.ofText P) (.ofText O)).2])) :
    ∃ whole, runWith codec env t (Arguments.buildLine E P S O) = (.exit 0, whole) ∧
      whole.tree.read (outputsOf (.ofText P) (.ofText O)).1
        = .ok (Utf8.encode (markupOf content)) ∧
      whole.tree.read (outputsOf (.ofText P) (.ofText O)).2
        = .ok (Utf8.encode (code ++ scriptContent)) := by
  have hsettings := @ofEnvironment_overrides env
    ⟨false, E.map fun d => .path (.ofText d), .ofText P,
      .build (some (.ofText S)) (.path (.ofText O))⟩ base E hbase rfl rfl
  obtain ⟨t₁, t₂, t₃, hyields, -, hmarkup, hbuilt⟩ :=
    yields_build hsettings hmanaged hpage hpreserved hcode hscript hroom
  obtain ⟨node, hnode⟩ := hpage.exists_find
  obtain ⟨whole, hwhole, rfl⟩ := exists_run (Arguments.ofArguments_build hE hP hS hO)
    hpage.noNul hnode hyields
  exact ⟨whole, hwhole, hbuilt.read_other (destination_outputsOf _ _ _) hmarkup.read, hbuilt.read⟩

/-- **Separate phases agree with the one build.** With any valid configuration, for any managed
page and any script, the markup phase and then the script phase, run over any folder of stored
queries, write what a build over the same files writes. Entries may be compressed by any codec that
gives the page's entry back. -/
theorem phases_agree_with_build
    (hwords : ∀ t ∈ [D, P, S, M, J, O] ++ E.toList, Arguments.IsWord t)
    (hbase : Settings.ofEnvironment env [] = .ok base)
    (hmanaged : base.manages (Path.ofText P).text = true)
    (hpage : HoldsText t (.ofText P) content) (hscript : HoldsText t (.ofText S) scriptContent)
    (hpreserved : Entry.Preserved (some codec) (keyOf (.ofText P)) (queriesOf content))
    (hroom : RoomFor t [entryPath (.ofText D) (.ofText P), .ofText M, .ofText J])
    (hmarkup : Outside t (.ofText D) (.ofText M)) (hgiven : Outside t (.ofText D) (.ofText S))
    (hMS : t.destination (.ofText M) ≠ t.destination (.ofText S))
    (hMJ : t.destination (.ofText M) ≠ t.destination (.ofText J))
    (hbuild : RoomFor t
      (entriesOf { base with storeDir := (E.map Path.ofText).or base.storeDir } (.ofText P)
        ++ [(outputsOf (.ofText P) (.ofText O)).1, (outputsOf (.ofText P) (.ofText O)).2])) :
    ∃ first second whole markup script,
      runWith codec env t (Arguments.markupLine D P M) = (.exit 0, first) ∧
      runWith codec env first.tree (Arguments.scriptLine D P S J) = (.exit 0, second) ∧
      runWith codec env t (Arguments.buildLine E P S O) = (.exit 0, whole) ∧
      second.tree.read (.ofText M) = .ok markup ∧
      whole.tree.read (outputsOf (.ofText P) (.ofText O)).1 = .ok markup ∧
      second.tree.read (.ofText J) = .ok script ∧
      whole.tree.read (outputsOf (.ofText P) (.ofText O)).2 = .ok script := by
  obtain ⟨⟨hD, hP, hS, hM, hJ, hO⟩, hE⟩ := by
    simpa only [List.forall_mem_append, List.forall_mem_cons, List.not_mem_nil, false_imp_iff,
      implies_true, and_true] using hwords
  have hE : ∀ d ∈ E, Arguments.IsWord d := fun d hd => hE d (Option.mem_toList.mpr hd)
  obtain ⟨code, hcode⟩ : ∃ code, Script.build (keyOf (.ofText P)) (queriesOf content)
    ⟨base.pause, base.package⟩ = .ok code := ⟨_, Script.build_eq _ _ _⟩
  obtain ⟨first, second, hfirst, hsecond, hM₂, hJ₂⟩ := exists_phase_runs hD hP hS hM hJ hbase
    hmanaged hpage hscript hpreserved hcode hroom hmarkup hgiven hMS hMJ
  obtain ⟨whole, hwhole, hM₃, hJ₃⟩ := exists_build_run hE hP hS hO hbase hmanaged hpage hscript
    hpreserved hcode hbuild
  exact ⟨first, second, whole, _, _, hfirst, hsecond, hwhole, hM₂, hM₃, hJ₂, hJ₃⟩

/-- A folder with a page, its script, folders for stored queries and for outputs, and something in
the former that is no entry. -/
def site : FileTree where
  nodes := .ofList
    [(["site".toList], .folder),
      (["site".toList, "page.md".toList],
        .file (Utf8.encode "```sql sales\r\nselect 1\r\n```\r\n# Sales\r\n".toList)),
      (["site".toList, "page.js".toList], .file (Utf8.encode "let x = 1;\n".toList)),
      (["site".toList, "store".toList], .folder),
      (["site".toList, "store".toList, "old.queries".toList], .file [0x28, 0xb5]),
      (["site".toList, "out".toList], .folder)]
  current := ["site".toList]

theorem holdsText_page : HoldsText site (.ofText "page.md".toList)
    "```sql sales\nselect 1\n```\n# Sales\n".toList :=
  ⟨by decide, _, _, rfl, Utf8.decode_encode _, by decide⟩

theorem holdsText_script : HoldsText site (.ofText "page.js".toList) "let x = 1;\n".toList :=
  ⟨by decide, _, _, rfl, Utf8.decode_encode _, by decide⟩

theorem roomFor_phases : RoomFor site
    [entryPath (.ofText "store".toList) (.ofText "page.md".toList), .ofText "sales.md".toList,
      .ofText "sales.js".toList] := by
  refine ⟨by decide +kernel, .cons (by decide +kernel) (by decide +kernel) ?_⟩
  refine .cons (by decide +kernel) (by decide +kernel) ?_
  exact .cons (by decide +kernel) (by decide +kernel) trivial

theorem roomFor_build : RoomFor site
    [(outputsOf (.ofText "page.md".toList) (.ofText "out".toList)).1,
      (outputsOf (.ofText "page.md".toList) (.ofText "out".toList)).2] := by
  refine ⟨by decide +kernel, .cons (by decide +kernel) (by decide +kernel) ?_⟩
  exact .cons (by decide +kernel) (by decide +kernel) trivial

theorem phases_agree_with_build_site :
    ∃ first second whole markup script,
      run .empty site (Arguments.markupLine "store".toList "page.md".toList "sales.md".toList)
        = (.exit 0, first) ∧
      run .empty first.tree (Arguments.scriptLine "store".toList "page.md".toList
        "page.js".toList "sales.js".toList) = (.exit 0, second) ∧
      run .empty site (Arguments.buildLine none "page.md".toList "page.js".toList "out".toList)
        = (.exit 0, whole) ∧
      second.tree.read (.ofText "sales.md".toList) = .ok markup ∧
      whole.tree.read (outputsOf (.ofText "page.md".toList) (.ofText "out".toList)).1
        = .ok markup ∧
      second.tree.read (.ofText "sales.js".toList) = .ok script ∧
      whole.tree.read (outputsOf (.ofText "page.md".toList) (.ofText "out".toList)).2
        = .ok script := by
  have hwords : ∀ t ∈ ["store".toList, "page.md".toList, "page.js".toList, "sales.md".toList,
      "sales.js".toList, "out".toList] ++ (none : Option Text).toList, Arguments.IsWord t :=
    fun t ht => Arguments.isWord_of_head (by revert t; decide)
  have hbase : Settings.ofEnvironment .empty [] = .ok .default := rfl
  exact phases_agree_with_build hwords hbase (by decide) holdsText_page holdsText_script
    (Entry.preserved_frame (by decide +kernel)) roomFor_phases (by decide) (by decide)
    (by decide) (by decide) roomFor_build

end PageQueries.Command
