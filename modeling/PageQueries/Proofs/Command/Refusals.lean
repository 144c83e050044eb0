import PageQueries.Proofs.Command.Quiet
import PageQueries.Proofs.Preprocessor.Phases
import PageQueries.Proofs.Text.Crlf

/-!
# Refused runs leave files alone

The command refuses a page that does not exist, a configuration that is
invalid, a script phase without a folder of stored queries, and a build of a
page that is not managed (`Refused`). It notices them at different points, but
always in a quiet part of the run. So the files are as before, the entries of
every folder of stored queries among them.

A page that is not managed, and a script that is left alone, are handed on as
they were read (`LeftAlone`): printed, or written to the one file that changes
(`Written`). Reading turns every line end into a line feed, so a text with
carriage returns is not handed on exactly (`not_copied_carriageReturn`).

Results:
* `leads_refused`, `leads_leftAlone`: the two kinds of actions.
* `refused_runs_keep_files`: whole runs.
-/
namespace PageQueries

/-- The run has ended with code 1 or was broken off. -/
def RunEnd.Failed : RunEnd → Prop
  | .exit code => code = 1
  | .brokenOff _ => True

/-- Whether the run has ended with code 0. -/
def RunEnd.isSuccess : RunEnd → Bool
  | .exit code => code = 0
  | .brokenOff _ => false

theorem RunEnd.isSuccess_iff {e : RunEnd} : e.isSuccess = true ↔ e = .exit 0 := by
  cases e <;> simp [isSuccess]

namespace Command

open FileTree (SameFiles SameFilesBut)

variable {codec : Codec} {t : FileTree} {env : Environment} {i : Invocation} {args : List Text}

/-- The page exists. -/
def Found (t : FileTree) (page : Path) : Prop :=
  hasNul page = false ∧ ∃ node, t.find page = .ok node

/-- What an invocation is refused for whose page exists. -/
inductive Refused (env : Environment) (i : Invocation) : Prop
  | configuration {vs : List Violation} (ha : i.action ≠ .classify)
      (hs : Settings.ofEnvironment env (overrides i) = .error vs)
  | noStore {s : Settings} {script : Option Path} {context : Option Text} {output : Option Target}
      (ha : i.action = .script script context output)
      (hs : Settings.ofEnvironment env (overrides i) = .ok s) (hd : s.storeDir = none)
  | unmanaged {s : Settings} {script : Option Path} {outputDir : Target}
      (ha : i.action = .build script outputDir)
      (hs : Settings.ofEnvironment env (overrides i) = .ok s)
      (hm : s.manages i.file.text = false)

/-- The invocation hands on the text of the first path, if any, to the output. -/
inductive LeftAlone (env : Environment) (i : Invocation) : Option Path → Option Target → Prop
  | page {s : Settings} {output : Option Target} (ha : i.action = .markup output)
      (hs : Settings.ofEnvironment env (overrides i) = .ok s)
      (hm : s.manages i.file.text = false) : LeftAlone env i (some i.file) output
  | script {s : Settings} {script : Option Path} {context : Option Text}
      {output : Option Target} (ha : i.action = .script script context output)
      (hs : Settings.ofEnvironment env (overrides i) = .ok s)
      (hm : s.manages i.file.text = false ∨ context = some "module".toList) :
      LeftAlone env i script output

/-- The text is all that is printed, and the files are those of the tree; or it is in the output
file, and the other files are those of the tree. -/
inductive Written (t : FileTree) (text : Text) : Option Target → Progress → Prop
  | printed {s : Progress} (hout : s.output = text) (hfiles : SameFiles t s.tree) :
      Written t text none s
  | file {p : Path} {s : Progress} (hfiles : SameFilesBut t p (Utf8.encode text) s.tree) :
      Written t text (some (.path p)) s

/-! ## The ends of actions -/

theorem leads_refuse (reason : Text) :
    Leads (Untouched t) (refuse reason) (fun code s => code = 1 ∧ Unharmed t s) (Unharmed t) :=
  fun _ hs => ⟨rfl, hs.files⟩

theorem leads_writeOutput (text : Text) (output : Option Target) :
    Leads (Untouched t) (writeOutput text output) (fun _ s => Written t text output s)
      (Unharmed t) := by
  unfold writeOutput
  split
  · intro s hs
    exact .printed (by simp [hs.silent]) hs.files
  · rename_i p
    -- if writing fails, the folders above stay, and no file has changed
    refine (quiet_ensureFolders p.parent).leads fun _ _ => ?_
    have hwrite : Leads (Untouched t) (changeTree p (·.write · (Utf8.encode text)))
        (fun _ s => SameFilesBut t p (Utf8.encode text) s.tree) (Unharmed t) :=
      (quiet_onTree fun u u' hu hw => (FileTree.wrote_of_write hw).sameFilesBut hu).leads
        fun u' hu' _ _ => hu'
    exact hwrite.bind fun _ s hs => .file hs
  · exact fun s hs => hs.files

/-! ## Actions -/

theorem leads_refused (h : Refused env i) :
    Leads (Untouched t) (perform codec env i) (fun code s => code = 1 ∧ Unharmed t s)
      (Unharmed t) := by
  cases h with
  | @configuration vs ha hs =>
    -- the settings are the first thing that each action but the report asks for
    have hrefused : ∀ f : Settings → Run Nat, Leads (Untouched t) (settings env i >>= f)
        (fun code s => code = 1 ∧ Unharmed t s) (Unharmed t) := fun f =>
      (quiet_settings env i).leads fun s hs' => nomatch hs.symm.trans hs'
    unfold perform
    split
    · exact hrefused _
    · exact hrefused _
    · exact hrefused _
    · rename_i hclassify
      exact absurd hclassify ha
  | noStore ha hs hd =>
    unfold perform
    rw [ha]
    refine (quiet_settings env i).leads fun s hs' => ?_
    cases hs.symm.trans hs'
    simp only [hd, Option.isNone_none, if_true]
    exact leads_refuse _
  | @unmanaged s _ _ ha hs hm =>
    unfold perform
    rw [ha]
    refine (quiet_settings env i).leads fun s hs' => ?_
    cases hs.symm.trans hs'
    refine (quiet_readText _).leads fun content _ => ?_
    refine (quiet_readOptional _).leads fun script _ => ?_
    simp only [hm, Bool.false_eq_true, if_false]
    refine (quiet_onPage fun store =>
      Preprocessor.process_unmanaged (p := ⟨s, store⟩) hm).leads fun a ha => ?_
    subst ha
    exact leads_refuse _

theorem leads_leftAlone {input : Option Path} {output : Option Target}
    (h : LeftAlone env i input output) :
    Leads (Untouched t) (perform codec env i) (fun code s => code = 0 →
      ∃ raw, Given t input raw ∧ Written t raw.unifyLineEnds output s) (Unharmed t) := by
  cases h with
  | @page s _ ha hs hm =>
    unfold perform
    rw [ha]
    refine (quiet_settings env i).leads fun s hs' => ?_
    cases hs.symm.trans hs'
    refine (quiet_readText _).leads fun content hcontent => ?_
    obtain ⟨raw, hgiven, rfl⟩ := hcontent
    simp only [hm, Bool.false_eq_true, if_false]
    refine (quiet_onPage fun store =>
      Preprocessor.markup_unmanaged (p := ⟨s, store⟩) hm).leads fun a ha => ?_
    subst ha
    exact (leads_writeOutput _ _).bind fun _ s hs _ => ⟨raw, hgiven, hs⟩
  | @script s _ context _ ha hs hm =>
    have hleft : (s.manages i.file.text && !Preprocessor.isModule (attributesOf context))
        = false := by
      rcases hm with hm | rfl
      · rw [hm, Bool.false_and]
      · exact Bool.and_false _
    unfold perform
    rw [ha]
    refine (quiet_settings env i).leads fun s hs' => ?_
    cases hs.symm.trans hs'
    split
    -- without a folder of stored queries the code is not 0
    · exact fun s hs hcode => nomatch hcode
    refine (quiet_readOptional _).leads fun content hcontent => ?_
    obtain ⟨raw, hgiven, rfl⟩ := hcontent
    simp only [hleft, Bool.false_eq_true, if_false]
    refine (quiet_onPage fun store =>
      Preprocessor.script_left_alone (p := ⟨s, store⟩) hleft).leads fun a ha => ?_
    subst ha
    exact (leads_writeOutput _ _).bind fun _ s hs _ => ⟨raw, hgiven, hs⟩

/-! ## Whole runs -/

/-- The run has ended as its action has, or in failure with the files as before. -/
def Ended (t : FileTree) (after : Nat → Progress → Prop) (e : RunEnd) (s : Progress) : Prop :=
  (∃ code, e = .exit code ∧ after code s) ∨ e.Failed ∧ Unharmed t s

variable {after : Nat → Progress → Prop}

theorem leads_conclude (e : RunFailure) :
    Leads (Unharmed t) (conclude e) (Ended t after) (Unharmed t) := by
  cases e with
  | page e => cases e <;> exact fun s hs => .inr ⟨by trivial, hs⟩
  | _ => exact fun s hs => .inr ⟨by trivial, hs⟩

theorem leads_invoke (hf : Found t i.file)
    (h : Leads (Untouched t) (perform codec env i) after (Unharmed t)) :
    Leads (· = ⟨t, [], []⟩) (invoke codec env i) (Ended t after) (Unharmed t) := by
  obtain ⟨hn, node, hnode⟩ := hf
  have hexit : Leads (Untouched t) (RunEnd.exit <$> perform codec env i) (Ended t after)
      (Unharmed t) := by
    rw [map_eq_pure_bind]
    exact h.bind fun code s hs => .inl ⟨code, rfl, hs⟩
  unfold invoke
  simp only [hn, Bool.false_eq_true, if_false]
  refine .look fun s hs => ?_
  rw [hs, hnode]
  exact fun s hs => hexit.tryCatch leads_conclude s (hs ▸ ⟨.refl t, rfl⟩)

theorem leads_invoke_missing (hf : ¬ Found t i.file) :
    Leads (· = ⟨t, [], []⟩) (invoke codec env i) (fun e s => e.Failed ∧ Unharmed t s)
      (Unharmed t) := by
  unfold invoke
  dsimp only
  split
  · rintro _ rfl
    exact ⟨rfl, .refl t⟩
  · rename_i hn
    refine .look fun s hs => ?_
    rw [hs]
    split
    · rename_i node hnode
      exact absurd ⟨by simpa using hn, node, hnode⟩ hf
    · rintro _ rfl
      exact ⟨trivial, .refl t⟩
    · rintro _ rfl
      exact ⟨rfl, .refl t⟩

/-- A run ends as its invocation does. -/
theorem run_of_leads {ended : RunEnd → Progress → Prop}
    (ha : Invocation.ofArguments args = .ok i)
    (h : Leads (· = ⟨t, [], []⟩) (invoke codec env i) ended (Unharmed t))
    (hfailed : ∀ s, Unharmed t s → ended (.exit 1) s) :
    ended (runWith codec env t args).1 (runWith codec env t args).2 := by
  have hrun := h _ rfl
  unfold runWith
  rw [ha]
  dsimp only
  split
  · rename_i heq
    rw [heq] at hrun
    exact hrun
  · rename_i heq
    rw [heq] at hrun
    exact hfailed _ hrun

theorem run_of_found (ha : Invocation.ofArguments args = .ok i) (hf : Found t i.file)
    (h : Leads (Untouched t) (perform codec env i) after (Unharmed t)) :
    Ended t after (runWith codec env t args).1 (runWith codec env t args).2 :=
  run_of_leads ha (leads_invoke hf h) fun _ hs => .inr ⟨rfl, hs⟩

theorem run_of_missing (ha : Invocation.ofArguments args = .ok i) (hf : ¬ Found t i.file) :
    (runWith codec env t args).1.Failed ∧ Unharmed t (runWith codec env t args).2 :=
  run_of_leads ha (leads_invoke_missing hf) fun _ hs => ⟨rfl, hs⟩

theorem run_of_refused (ha : Invocation.ofArguments args = .ok i) (h : Refused env i) :
    (runWith codec env t args).1.Failed ∧ Unharmed t (runWith codec env t args).2 := by
  by_cases hf : Found t i.file
  · rcases run_of_found ha hf (leads_refused h) with ⟨code, he, rfl, hs⟩ | hfailed
    · rw [he]
      exact ⟨rfl, hs⟩
    · exact hfailed
  · exact run_of_missing ha hf

/-- A text is handed on if the run ends with success. -/
theorem run_of_leftAlone (ha : Invocation.ofArguments args = .ok i) {input : Option Path}
    {output : Option Target} (h : LeftAlone env i input output)
    (hexit : (runWith codec env t args).1 = .exit 0) :
    ∃ raw, Given t input raw ∧ Written t raw.unifyLineEnds output (runWith codec env t args).2 := by
  have hsuccess : ¬ (runWith codec env t args).1.Failed := by
    rw [hexit]
    exact Nat.zero_ne_one
  by_cases hf : Found t i.file
  · rcases run_of_found ha hf (leads_leftAlone h) with ⟨code, he, hwritten⟩ | ⟨hfailed, -⟩
    · cases hexit.symm.trans he
      exact hwritten rfl
    · exact absurd hfailed hsuccess
  · exact absurd (run_of_missing ha hf).1 hsuccess

/-- **Refused runs leave files alone.** With any codec, a run fails if its page does not exist, or if
it is refused for its settings, for want of a folder of stored queries or because its page is not
managed. Then all files are as before, and so are the entries in any folder. A run that hands on a
text and succeeds has written the text as it was read, and no other file but the output has changed.
Of a build, both phases have an answer or neither has. -/
theorem refused_runs_keep_files (ha : Invocation.ofArguments args = .ok i) :
    (¬ Found t i.file ∨ Refused env i →
      (runWith codec env t args).1.Failed ∧ SameFiles t (runWith codec env t args).2.tree ∧
      ∀ folder name, ((runWith codec env t args).2.tree.filesAt folder).get? name
        = (t.filesAt folder).get? name) ∧
    (∀ input output, LeftAlone env i input output → (runWith codec env t args).1 = .exit 0 →
      ∃ raw, Given t input raw ∧ Written t raw.unifyLineEnds output (runWith codec env t args).2 ∧
        (raw.unifyLineEnds = raw ↔ '\r' ∉ raw)) ∧
    ∀ (h : Hooks) (p : Preprocessor) (content filename script : Text) (m s : Option Text),
      (p.process h content filename script []).answer = .ok (m, s) →
        (m = none ↔ p.handles filename = false) ∧ (s = none ↔ p.handles filename = false) := by
  refine ⟨fun hrefused => ?_, fun input output hleft hexit => ?_,
    fun h p content filename script m s => Preprocessor.answers_of_process⟩
  · obtain ⟨hfailed, hfiles⟩ := hrefused.elim (run_of_missing ha) (run_of_refused ha)
    exact ⟨hfailed, hfiles, hfiles.get?_filesAt⟩
  · obtain ⟨raw, hgiven, hwritten⟩ := run_of_leftAlone ha hleft hexit
    exact ⟨raw, hgiven, hwritten, Text.unifyLineEnds_eq_self_iff⟩

/-- A page that is not managed, and a folder with an entry. -/
def plainSite : FileTree where
  nodes := .ofList
    [(["page.txt".toList], .file (Utf8.encode "# Sales\r\n".toList)),
      (["store".toList], .folder),
      (["store".toList, "old.queries".toList], .file [0x28, 0xb5])]
  current := []

/-- Builds the page over the folder. -/
def plainBuild : List Text := ["--store-dir", "store", "build", "page.txt"].map String.toList

/-- Copies the page. -/
def plainCopy : List Text := ["markup", "page.txt", "--output", "copy.txt"].map String.toList

theorem refused_runs_keep_files_plainSite :
    (run .empty plainSite plainBuild).1.Failed ∧
      SameFiles plainSite (run .empty plainSite plainBuild).2.tree ∧
      ∃ raw, Given plainSite (some (.ofText "page.txt".toList)) raw ∧
        Written plainSite raw.unifyLineEnds (some (.path (.ofText "copy.txt".toList)))
          (run .empty plainSite plainCopy).2 := by
  have hbuild : Invocation.ofArguments plainBuild = .ok ⟨false,
      some (.path (.ofText "store".toList)), .ofText "page.txt".toList,
      .build none (.path (.ofText ".".toList))⟩ := by decide +kernel
  have hcopy : Invocation.ofArguments plainCopy = .ok ⟨false, none, .ofText "page.txt".toList,
      .markup (some (.path (.ofText "copy.txt".toList)))⟩ := by decide +kernel
  have hexit : (run .empty plainSite plainCopy).1.isSuccess = true := by decide +kernel
  obtain ⟨hrefused, -, -⟩ := @refused_runs_keep_files Frame.codec plainSite .empty _ _ hbuild
  obtain ⟨-, hleft, -⟩ := @refused_runs_keep_files Frame.codec plainSite .empty _ _ hcopy
  obtain ⟨hfailed, hfiles, -⟩ := hrefused (.inr
    (.unmanaged (s := { Settings.default with storeDir := some (.ofText "store".toList) }) rfl rfl
      (by decide)))
  obtain ⟨raw, hgiven, hwritten, -⟩ :=
    hleft _ _ (.page (s := .default) rfl rfl (by decide)) (RunEnd.isSuccess_iff.mp hexit)
  exact ⟨hfailed, hfiles, raw, hgiven, hwritten⟩

/-- A page with carriage returns is not handed on exactly. -/
theorem not_copied_carriageReturn :
    ¬ ∀ raw, plainSite.read (.ofText "page.txt".toList) = .ok (Utf8.encode raw) →
      (run .empty plainSite plainCopy).1 = .exit 0 →
      (run .empty plainSite plainCopy).2.tree.read (.ofText "copy.txt".toList)
        = .ok (Utf8.encode raw) := by
  intro h
  have hexit : (run .empty plainSite plainCopy).1.isSuccess = true := by decide +kernel
  have hcopy : (run .empty plainSite plainCopy).2.tree.read (.ofText "copy.txt".toList)
      ≠ .ok (Utf8.encode "# Sales\r\n".toList) := by decide +kernel
  exact hcopy (h "# Sales\r\n".toList rfl (RunEnd.isSuccess_iff.mp hexit))

end Command

end PageQueries
