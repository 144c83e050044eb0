import PageQueries.Command.Basic
import PageQueries.Proofs.FileTree.Files

/-!
# Quiet parts of a run

Before the command writes or prints anything it makes the folder of stored
queries, reads files and runs the phases. As long as the phases do not change
the store, the files of the tree are then still those of the beginning, and
nothing has been printed (`Untouched`).

`Leads before x after failed` says where the part `x` of a run leads from a
state of some kind, with a value and without. `Quiet t x post` is the case in
which it stays `Untouched` and gives a value with a property, or fails and the
files are as before all the same. Each step of the command has one lemma.
-/
namespace PageQueries.Command

open FileTree (SameFiles)

/-- From a state of the first kind the part of a run gets with a value to one of the second kind,
or with a failure to one of the third. -/
def Leads {α : Type} (before : Progress → Prop) (x : Run α) (after : α → Progress → Prop)
    (failed : Progress → Prop) : Prop :=
  ∀ s, before s → match x.run.run s with
    | (.ok a, s') => after a s'
    | (.error _, s') => failed s'

/-- The files are those of the tree, and nothing has been printed. -/
structure Untouched (t : FileTree) (s : Progress) : Prop where
  files : SameFiles t s.tree
  silent : s.output = []

/-- The files are those of the tree. -/
def Unharmed (t : FileTree) (s : Progress) : Prop := SameFiles t s.tree

/-- The part of a run makes folders at most, and what it gives has the property. -/
def Quiet {α : Type} (t : FileTree) (x : Run α) (post : α → Prop) : Prop :=
  Leads (Untouched t) x (fun a s => post a ∧ Untouched t s) (Unharmed t)

variable {α β : Type} {codec : Codec} {t : FileTree} {p : Path} {env : Environment}
  {i : Invocation} {s : Settings} {post : α → Prop} {post' : β → Prop}

/-! ## Putting parts together -/

theorem Leads.bind {before failed : Progress → Prop} {between : α → Progress → Prop}
    {after : β → Progress → Prop} {x : Run α} {f : α → Run β}
    (hx : Leads before x between failed) (hf : ∀ a, Leads (between a) (f a) after failed) :
    Leads before (x >>= f) after failed := by
  intro s hs
  have hxs := hx s hs
  rw [ExceptT.run_bind, StateT.run_bind]
  generalize x.run.run s = r at hxs
  obtain ⟨a | e, s'⟩ := r
  · exact hxs
  · exact hf _ s' hxs

/-- The state may be looked at on the way. -/
theorem Leads.look {before failed : Progress → Prop} {after : β → Progress → Prop}
    {f : Progress → Run β} (h : ∀ s, before s → Leads before (f s) after failed) :
    Leads before (get >>= f) after failed := fun s hs => h s hs s hs

/-- A failure is dealt with where the part of a run has failed. -/
theorem Leads.tryCatch {before between failed : Progress → Prop} {after : α → Progress → Prop}
    {x : Run α} {handler : RunFailure → Run α} (hx : Leads before x after between)
    (hhandler : ∀ e, Leads between (handler e) after failed) :
    Leads before (MonadExcept.tryCatch x handler) after failed := by
  intro s hs
  have hxs := hx s hs
  rw [ExceptT.run_tryCatch, StateT.run_bind]
  generalize x.run.run s = r at hxs
  obtain ⟨a | e, s'⟩ := r
  · exact hhandler a s' hxs
  · exact hxs

namespace Quiet

theorem pure {a : α} (h : post a) : Quiet t (Pure.pure a) post := fun _ hs => ⟨h, hs⟩

theorem throw (e : RunFailure) : Quiet t (MonadExcept.throw e : Run α) post := fun _ hs => hs.files

/-- What comes after a quiet part starts where that part did. -/
theorem leads {x : Run α} {f : α → Run β} {after : β → Progress → Prop} (hx : Quiet t x post)
    (hf : ∀ a, post a → Leads (Untouched t) (f a) after (Unharmed t)) :
    Leads (Untouched t) (x >>= f) after (Unharmed t) :=
  Leads.bind hx fun a s hs => hf a hs.1 s hs.2

theorem bind {x : Run α} {f : α → Run β} (hx : Quiet t x post)
    (hf : ∀ a, post a → Quiet t (f a) post') : Quiet t (x >>= f) post' := hx.leads hf

theorem look {f : Progress → Run β} (h : ∀ s, Untouched t s → Quiet t (f s) post') :
    Quiet t (get >>= f) post' := Leads.look h

end Quiet

/-! ## Steps -/

theorem quiet_warn (ws : List Warning) : Quiet t (warn ws) fun _ => True :=
  fun _ hs => ⟨trivial, hs.files, hs.silent⟩

theorem quiet_onTree {f : FileTree → Path → Except FileError α}
    (h : ∀ u a, SameFiles t u → f u p = .ok a → post a) : Quiet t (onTree p f) post := by
  unfold onTree
  split
  · exact .throw _
  · refine .look fun s hs => ?_
    split
    · rename_i a ha
      exact .pure (h _ a hs.files ha)
    · exact .throw _

theorem quiet_changeTree {f : FileTree → Path → Except FileError FileTree}
    (h : ∀ u u', SameFiles t u → f u p = .ok u' → SameFiles t u') :
    Quiet t (changeTree p f) fun _ => True :=
  (quiet_onTree h).bind fun _ hu _ hs => ⟨trivial, hu, hs.silent⟩

theorem quiet_ensureFolders (p : Path) :
    Quiet t (changeTree p (·.ensureFolders ·)) fun _ => True :=
  quiet_changeTree fun _ _ hu hmake => hu.trans (FileTree.sameFiles_ensureFolders hmake)

/-- The text that a run is given in a file, or the empty one if it is given no file. -/
inductive Given (t : FileTree) : Option Path → Text → Prop
  | nothing : Given t none []
  | file {p : Path} {bytes : Bytes} {raw : Text}
      (hat : t.at? (t.destination p) = some (.file bytes)) (hd : Utf8.decode bytes = .ok raw) :
      Given t (some p) raw

theorem quiet_readText (p : Path) :
    Quiet t (readText p) fun text => ∃ raw, Given t (some p) raw ∧ text = raw.unifyLineEnds := by
  refine (quiet_onTree fun u bytes hu hread => hu.at?_of_read hread).bind fun bytes hat => ?_
  split
  · rename_i raw hd
    exact .pure ⟨raw, .file hat hd, rfl⟩
  · exact .throw _

theorem quiet_readOptional (given : Option Path) :
    Quiet t (readOptional given)
      fun text => ∃ raw, Given t given raw ∧ text = raw.unifyLineEnds := by
  cases given with
  | none => exact .pure ⟨[], .nothing, rfl⟩
  | some p => exact quiet_readText p

/-- The settings are those of the environment. -/
theorem quiet_settings (env : Environment) (i : Invocation) :
    Quiet t (settings env i) fun s => Settings.ofEnvironment env (overrides i) = .ok s := by
  unfold settings
  split
  · exact .throw _
  · rename_i s hs
    split
    · exact .pure hs
    · exact (quiet_ensureFolders _).bind fun _ _ => .pure hs

/-- A store that is as before is not written. -/
theorem quiet_saveStore (s : Settings) (store : Store) :
    Quiet t (saveStore s store store) fun _ => True := by
  unfold saveStore
  cases s.storeDir with
  | none => exact .pure trivial
  | some p =>
    cases store with
    | memory m => exact .pure trivial
    | disk d =>
      refine quiet_changeTree fun u u' hu hupdate => ?_
      cases (FileTree.update_self u p d.files).symm.trans hupdate
      exact hu

/-- Phases that leave the store alone. -/
theorem quiet_onPage {f : Hooks → Preprocessor → Outcome α} {a : α}
    (h : ∀ store, f .default ⟨s, store⟩ = ⟨.ok a, ⟨s, store⟩, []⟩) :
    Quiet t (onPage codec s f) (· = a) := by
  unfold onPage
  refine .look fun _ _ => ?_
  simp only [h]
  exact (quiet_warn _).bind fun _ _ => (quiet_saveStore _ _).bind fun _ _ => .pure rfl

end PageQueries.Command
