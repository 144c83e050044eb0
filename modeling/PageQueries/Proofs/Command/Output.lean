import PageQueries.Proofs.Command.Quiet
import PageQueries.Proofs.Command.Steps

/-!
# What a run prints

An action prints its result, or writes it to a file and tells where. Every step
in front of that is `Silent`: it prints nothing, whether it fails or not.

`Prints x t a out t'` is `Yields x t a t'` together with what the part `x` adds
to the output. A step that yields and is silent prints the empty text
(`Yields.prints`), so the lemmas of the steps serve for both.

`prints_writeOutput`: a result that is printed is all that is printed for it,
and one that is written is in its file.
-/
namespace PageQueries.Command

open FileTree (Placed)

/-- The part of a run prints nothing. -/
def Silent {α : Type} (x : Run α) : Prop :=
  ∀ output, Leads (·.output = output) x (fun _ s => s.output = output) (·.output = output)

/-- From the first tree the part of a run gets to the second tree with a value, and adds the text
to what has been printed. -/
def Prints {α : Type} (x : Run α) (t : FileTree) (a : α) (out : Text) (t' : FileTree) : Prop :=
  ∀ s : Progress, s.tree = t →
    ∃ s' : Progress, x.run.run s = (.ok a, s') ∧ s'.tree = t' ∧ s'.output = s.output ++ out

variable {α β : Type} {t t' t'' : FileTree} {p : Path} {codec : Codec}

namespace Silent

theorem pure (a : α) : Silent (Pure.pure a : Run α) := fun _ _ hs => hs

theorem throw (e : RunFailure) : Silent (MonadExcept.throw e : Run α) := fun _ _ hs => hs

theorem bind {x : Run α} {f : α → Run β} (hx : Silent x) (hf : ∀ a, Silent (f a)) :
    Silent (x >>= f) := fun output => Leads.bind (hx output) fun a => hf a output

theorem look {f : Progress → Run β} (h : ∀ s, Silent (f s)) : Silent (get >>= f) :=
  fun output => Leads.look fun s _ => h s output

end Silent

namespace Prints

theorem pure (a : α) (t : FileTree) : Prints (Pure.pure a) t a [] t :=
  fun s hs => ⟨s, rfl, hs, (List.append_nil _).symm⟩

theorem bind {x : Run α} {f : α → Run β} {a : α} {b : β} {out out' : Text}
    (hx : Prints x t a out t') (hf : Prints (f a) t' b out' t'') :
    Prints (x >>= f) t b (out ++ out') t'' := by
  intro s hs
  obtain ⟨s', hxs, hs', hout⟩ := hx s hs
  obtain ⟨s'', hfs, hs'', hout'⟩ := hf s' hs'
  refine ⟨s'', ?_, hs'', ?_⟩
  · rw [ExceptT.run_bind, StateT.run_bind, hxs]
    exact hfs
  · rw [hout', hout, List.append_assoc]

/-- A value that is returned at the end adds nothing. -/
theorem bind_pure {x : Run α} {a : α} {out : Text} (hx : Prints x t a out t') (f : α → β) :
    Prints (x >>= fun a => Pure.pure (f a)) t (f a) out t' := by
  have h := hx.bind (f := fun a => Pure.pure (f a)) (pure (f a) t')
  rwa [List.append_nil] at h

theorem yields {x : Run α} {a : α} {out : Text} (h : Prints x t a out t') : Yields x t a t' := by
  intro s hs
  obtain ⟨s', hx, hs', -⟩ := h s hs
  exact ⟨s', hx, hs'⟩

end Prints

/-- A silent part prints nothing on its way. -/
theorem Yields.prints {x : Run α} {a : α} (h : Yields x t a t') (hx : Silent x) :
    Prints x t a [] t' := by
  intro s hs
  obtain ⟨s', hxs, hs'⟩ := h s hs
  refine ⟨s', hxs, hs', ?_⟩
  have hsame := hx s.output s rfl
  rw [hxs] at hsame
  rw [List.append_nil]
  exact hsame

/-! ## Silent steps -/

theorem silent_warn (ws : List Warning) : Silent (warn ws) := fun _ _ hs => hs

theorem silent_onTree (p : Path) (f : FileTree → Path → Except FileError α) :
    Silent (onTree p f) := by
  unfold onTree
  split
  · exact .throw _
  · refine .look fun s => ?_
    split
    · exact .pure _
    · exact .throw _

theorem silent_changeTree (p : Path) (f : FileTree → Path → Except FileError FileTree) :
    Silent (changeTree p f) := (silent_onTree p f).bind fun _ _ _ hs => hs

theorem silent_readText (p : Path) : Silent (readText p) := by
  refine (silent_onTree p _).bind fun bytes => ?_
  split
  · exact .pure _
  · exact .throw _

theorem silent_readOptional (given : Option Path) : Silent (readOptional given) := by
  cases given with
  | none => exact .pure []
  | some p => exact silent_readText p

theorem silent_settings (env : Environment) (i : Invocation) : Silent (settings env i) := by
  unfold settings
  split
  · exact .throw _
  · split
    · exact .pure _
    · exact (silent_changeTree _ _).bind fun _ => .pure _

theorem silent_checkEntry (s : Settings) (page : Path) (reading : Bool) :
    Silent (checkEntry s page reading) := by
  unfold checkEntry
  split
  · exact .pure _
  · refine .look fun r => ?_
    split
    · split
      · exact (silent_warn _).bind fun _ => .throw _
      · exact .throw _
    · exact .throw _
    · exact .pure _

theorem silent_saveStore (s : Settings) (before after : Store) :
    Silent (saveStore s before after) := by
  unfold saveStore
  split
  · exact silent_changeTree _ _
  · exact .pure _

theorem silent_onPage (s : Settings) (f : Hooks → Preprocessor → Outcome α) :
    Silent (onPage codec s f) := by
  refine .look fun r => (silent_warn _).bind fun _ => (silent_saveStore s _ _).bind fun _ => ?_
  split
  · exact .pure _
  · exact .throw _

/-! ## Results -/

theorem prints_print (text : Text) (t : FileTree) : Prints (print text) t () text t :=
  fun _ hs => ⟨_, rfl, hs, rfl⟩

/-- A text is written where there is room for a file. -/
theorem prints_writeText {ps : List Path} (h : RoomFor t (p :: ps)) (text : Text) :
    ∃ out t', Prints (writeText text p) t () out t' ∧ Placed t p (Utf8.encode text) t' := by
  have hn := h.noNul p List.mem_cons_self
  obtain ⟨t₁, hmake, hfree⟩ := h.room.exists_free
  have hfolders := (yields_changeTree (hasNul_parent hn) hmake).prints (silent_changeTree _ _)
  have hwrite : Prints (changeTree p (·.write · (Utf8.encode text))) t₁ () [] _ :=
    (yields_changeTree hn (hfree.write _)).prints (silent_changeTree _ _)
  exact ⟨_, _, hfolders.bind (hwrite.bind (prints_print _ _)), t₁, hmake, hfree.put _⟩

/-- The files that an output is written to. -/
def outputFiles : Option Target → List Path
  | some (.path p) => [p]
  | _ => []

/-- The text has been put out: printed, with the tree as it was, or placed in the file. -/
inductive PutOut (text : Text) (t : FileTree) : Option Target → Text → FileTree → Prop
  | printed : PutOut text t none text t
  | written {p : Path} {out : Text} {t' : FileTree} (h : Placed t p (Utf8.encode text) t') :
    PutOut text t (some (.path p)) out t'

theorem PutOut.kept {text out : Text} {output : Option Target}
    (h : PutOut text t output out t') : t.Kept t' := by
  cases h with
  | printed => exact .refl t
  | written h => exact h.kept

theorem PutOut.room {text out : Text} {output : Option Target} {ps : List Path}
    (h : PutOut text t output out t') (hroom : RoomFor t (outputFiles output ++ ps)) :
    RoomFor t' ps := by
  cases h with
  | printed => exact hroom
  | written h => exact RoomFor.placed hroom h

/-- Files elsewhere are read as before. -/
theorem PutOut.read_other {text out : Text} {output : Option Target}
    (h : PutOut text t output out t') {q : Path} {bytes : Bytes}
    (hq : ∀ p ∈ outputFiles output, t.destination q ≠ t.destination p) (hr : t.read q = .ok bytes) :
    t'.read q = .ok bytes := by
  cases h with
  | printed => exact hr
  | written h => exact h.read_other (hq _ (List.mem_singleton_self _)) hr

/-- A result is put out where there is room for it. -/
theorem prints_writeOutput {output : Option Target} {ps : List Path}
    (h : RoomFor t (outputFiles output ++ ps)) (hvoid : output ≠ some .void) (text : Text) :
    ∃ out t', Prints (writeOutput text output) t () out t' ∧ PutOut text t output out t' := by
  cases output with
  | none => exact ⟨_, _, prints_print text t, .printed⟩
  | some target =>
    cases target with
    | path p =>
      obtain ⟨out, t', hprints, hplaced⟩ := prints_writeText h text
      exact ⟨out, t', hprints, .written hplaced⟩
    | void => exact absurd rfl hvoid

end PageQueries.Command
