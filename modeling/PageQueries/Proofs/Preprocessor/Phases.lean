import PageQueries.Preprocessor
import PageQueries.Proofs.Script.Build
import PageQueries.Proofs.Validation

/-!
# What each phase does

One equation for each way through the phases of `Preprocessor`. The script
phase is described for stored queries that are texts, as they are unless
something else writes the store: then it cannot fail (`script_eq`), since texts
are accepted (`textsOf_map_text`) and every page has a script.

A phase that does not fail answers nothing only where it leaves the page alone.
So both phases together answer twice or not at all (`answers_of_process`).
-/
namespace PageQueries

namespace Preprocessor

variable {h : Hooks} {p : Preprocessor} {content filename : Text}
  {attributes : List (Text × Json)}

/-- Queries that were stored are read as they are. -/
theorem textsOf_map_text (queries : Queries) : textsOf (queries.map .text) = .ok queries := by
  have hnone : (queries.map Json.text).toList.find?
      (fun q => Identifier.isAccepted q.1 && q.2.asText?.isNone) = none := by
    refine List.find?_eq_none.mpr fun q hq => ?_
    obtain ⟨r, -, rfl⟩ := List.mem_map.mp hq
    simp [Json.asText?]
  rw [textsOf, hnone]
  simp only [checkTextMap_texts]
  rfl

/-- The default extractor does not fail, and gives records. -/
theorem records_default (content filename : Text) :
    records .default content filename = .ok (Fence.extract Fence.defaultLanguage content) := by
  have hread : ∀ rs : List Record, readItems (rs.map .record) = .ok rs := by
    intro rs
    induction rs with
    | nil => rfl
    | cons r rs ih =>
      rw [List.map_cons, readItems, ih]
      rfl
  exact hread _

theorem markup_unmanaged (hm : p.handles filename = false) :
    p.markup h content filename = ⟨.ok none, p, []⟩ := by
  rw [markup, hm]
  rfl

theorem markup_error (hm : p.handles filename = true) {e : PageError}
    (hr : records h content filename = .error e) :
    p.markup h content filename = ⟨.error e, p, []⟩ := by
  rw [markup, if_pos hm, hr]

theorem markup_ok (hm : p.handles filename = true) {rs : List Record}
    (hr : records h content filename = .ok rs) :
    p.markup h content filename = ⟨.ok (some (withViews h content rs)),
      { p with store := p.store.set (h.routeKey filename) (queriesOf rs) }, []⟩ := by
  rw [markup, if_pos hm, hr]

theorem markup_ne_none (hm : p.handles filename = true) :
    (p.markup h content filename).answer ≠ .ok none := by
  cases hr : records h content filename with
  | error e => simp [markup_error hm hr]
  | ok rs => simp [markup_ok hm hr]

theorem settings_markup (h : Hooks) (p : Preprocessor) (content filename : Text) :
    (p.markup h content filename).after.settings = p.settings := by
  rw [markup]
  split
  · split <;> rfl
  · rfl

theorem script_left_alone (hm : (p.handles filename && !isModule attributes) = false) :
    p.script h content filename attributes = ⟨.ok none, p, []⟩ := by
  rw [script, hm]
  rfl

/-- The script phase over an entry of texts, or over none. -/
theorem script_eq (content : Text) (hm : (p.handles filename && !isModule attributes) = true)
    {found : Option Queries} {store : Store} {warnings : List Warning}
    (hg : p.store.get (h.routeKey filename)
      = (.ok (found.map (·.map .text)), store, warnings)) :
    ∃ code,
      Script.build (h.routeKey filename) (found.getD .empty) p.scriptOptions = .ok code ∧
      (p.script h content filename attributes).answer = .ok (some (code ++ content)) ∧
      (p.script h content filename attributes).after =
        if h.discardAfterScript then
          { p with store := (store.discard (h.routeKey filename)).2 }
        else { p with store } := by
  have htexts : textsOf ((found.map (·.map Json.text)).getD .empty) = .ok (found.getD .empty) := by
    cases found with
    | none => rfl
    | some queries => exact textsOf_map_text queries
  refine ⟨_, Script.build_eq _ _ _, ?_, ?_⟩
  · rw [script, if_pos hm]
    simp only [hg, htexts, withBindings, scriptOptions, Script.build_eq]
    rfl
  · rw [script, if_pos hm]
    simp only [hg, htexts]

theorem script_ne_none (hm : (p.handles filename && !isModule attributes) = true) :
    (p.script h content filename attributes).answer ≠ .ok none := by
  rw [script, if_pos hm]
  dsimp only
  split
  · simp
  · split
    · simp
    · intro he
      obtain ⟨code, -, hnone⟩ := map_eq_ok_iff.mp he
      cases hnone

theorem settings_script (h : Hooks) (p : Preprocessor) (content filename : Text)
    (attributes : List (Text × Json)) :
    (p.script h content filename attributes).after.settings = p.settings := by
  rw [script]
  split
  · dsimp only
    split
    · rfl
    · split
      · rfl
      · dsimp only
        split <;> rfl
  · rfl

theorem process_error {e : PageError} {p' : Preprocessor} {ws : List Warning} {script : Text}
    (hp : p.markup h content filename = ⟨.error e, p', ws⟩) :
    p.process h content filename script attributes = ⟨.error e, p', ws⟩ := by
  rw [process, hp]

theorem process_ok {markup : Option Text} {p' : Preprocessor} {ws : List Warning} {script : Text}
    (hp : p.markup h content filename = ⟨.ok markup, p', ws⟩) :
    p.process h content filename script attributes
      = ⟨(p'.script h script filename attributes).answer.map (markup, ·),
        (p'.script h script filename attributes).after,
        ws ++ (p'.script h script filename attributes).warnings⟩ := by
  rw [process, hp]

theorem process_unmanaged {script : Text} (hm : p.handles filename = false) :
    p.process h content filename script [] = ⟨.ok (none, none), p, []⟩ := by
  rw [process_ok (markup_unmanaged hm), script_left_alone (by rw [hm]; rfl)]
  rfl

theorem settings_process (h : Hooks) (p : Preprocessor) (content filename script : Text)
    (attributes : List (Text × Json)) :
    (p.process h content filename script attributes).after.settings = p.settings := by
  rw [process]
  split
  · exact settings_markup h p content filename
  · exact (settings_script h _ _ _ _).trans (settings_markup h p content filename)

/-- A build has both outputs, or neither if the page is not managed. -/
theorem answers_of_process {script : Text} {m s : Option Text}
    (ha : (p.process h content filename script []).answer = .ok (m, s)) :
    (m = none ↔ p.handles filename = false) ∧ (s = none ↔ p.handles filename = false) := by
  cases hm : p.handles filename with
  | false =>
    rw [process_unmanaged hm] at ha
    cases ha
    simp
  | true =>
    unfold process at ha
    dsimp only at ha
    split at ha
    · cases ha
    · rename_i m' hmarkup
      obtain ⟨s', hscript, he⟩ := map_eq_ok_iff.mp ha
      cases he
      -- the settings that decide are the same for both phases
      have hm' : (p.markup h content filename).after.handles filename = true := by
        rw [handles, settings_markup]
        exact hm
      have hboth : m ≠ none ∧ s ≠ none := by
        constructor
        · rintro rfl
          exact markup_ne_none hm hmarkup
        · rintro rfl
          exact script_ne_none (by rw [hm']; rfl) hscript
      simp [hboth]

end Preprocessor

end PageQueries
