import Mathlib.Data.List.Induction
import PageQueries.Proofs.Preprocessor.Entries
import PageQueries.Proofs.Store.Content

/-!
# The two phases of a page correlate

The markup and the script phase of a page share nothing but the store, and all
pages share one store. Here a preprocessor runs any sequence of steps: phases of
any pages in any order, direct writes to the store, changes of the settings, and
its replacement by another one over the same store.

**History.** The steps leave a list of events: an entry was written under a key,
or the script phase used up the entry of a key. `Step.Leaves` says which, from
what is given to a phase and the settings in force: a markup phase that fails or
leaves its page alone leaves no event, and one that does not writes what the
page's records gather (`Writes`). `stored` reads off what a key should hold: the
queries of the latest event that concerns the key, if that is a writing.

**Results.**
* `exists_history`, `History.unique`: every run has one history.
* `inv_run`: after any run from an empty store, the store holds for every key
  what the history says.
* `scripts_correlate`: every script phase in the run, also inside `process`,
  that manages its page puts in front of the script exactly the generated code
  for those queries under the settings in force.
-/
namespace PageQueries.Preprocessor

/-- A step of a run. -/
inductive Step where
  | markup (content filename : Text)
  | script (content filename : Text) (attributes : List (Text × Json))
  | process (content filename script : Text) (attributes : List (Text × Json))
  /-- Writes the store directly. -/
  | set (filename : Text) (queries : Queries)
  /-- Assigns to a field of the settings. -/
  | assign (field : Text) (value : Json)
  /-- Puts a new preprocessor over the same store. -/
  | replace (settings : Settings)

/-- The settings after a step; a refused assignment changes nothing. -/
def Step.settings (s : Settings) : Step → Settings
  | .assign field value =>
    match s.assign field value with
    | .ok s' => s'
    | .error _ => s
  | .replace s' => s'
  | _ => s

/-- The preprocessor after a step. -/
def step (h : Hooks) (p : Preprocessor) : Step → Preprocessor
  | .markup content filename => (p.markup h content filename).after
  | .script content filename attributes => (p.script h content filename attributes).after
  | .process content filename script attributes =>
    (p.process h content filename script attributes).after
  | .set filename queries => { p with store := p.store.set (h.routeKey filename) queries }
  | .assign field value => { p with settings := (Step.assign field value).settings p.settings }
  | .replace settings => ⟨settings, p.store.handedOver⟩

/-- The preprocessor after a run. -/
def run (h : Hooks) (p : Preprocessor) : List Step → Preprocessor
  | [] => p
  | s :: steps => run h (step h p s) steps

/-- The settings after a run. -/
def settingsAfter (s : Settings) : List Step → Settings
  | [] => s
  | x :: steps => settingsAfter (x.settings s) steps

/-! ## Histories -/

/-- What a step does to the entries. -/
inductive Event where
  | wrote (key : Text) (queries : Queries)
  /-- The script phase has used the entry of the key. -/
  | used (key : Text)

/-- The events of a step. `process` ends where its markup phase fails or leaves the page alone. -/
inductive Step.Leaves (h : Hooks) (s : Settings) : Step → List Event → Prop
  | markup {content filename : Text} {queries : Queries}
    (hq : Writes h s content filename queries) :
    Leaves h s (.markup content filename) [.wrote (h.routeKey filename) queries]
  | noMarkup {content filename : Text} (hq : ∀ queries, ¬ Writes h s content filename queries) :
    Leaves h s (.markup content filename) []
  | script {content filename : Text} {attributes : List (Text × Json)}
    (hb : Binds s filename attributes) :
    Leaves h s (.script content filename attributes) [.used (h.routeKey filename)]
  | noScript {content filename : Text} {attributes : List (Text × Json)}
    (hb : ¬ Binds s filename attributes) : Leaves h s (.script content filename attributes) []
  | process {content filename code : Text} {attributes : List (Text × Json)} {queries : Queries}
    (hq : Writes h s content filename queries) (hb : Binds s filename attributes) :
    Leaves h s (.process content filename code attributes)
      [.wrote (h.routeKey filename) queries, .used (h.routeKey filename)]
  | processMarkup {content filename code : Text} {attributes : List (Text × Json)}
    {queries : Queries} (hq : Writes h s content filename queries)
    (hb : ¬ Binds s filename attributes) :
    Leaves h s (.process content filename code attributes) [.wrote (h.routeKey filename) queries]
  | noProcess {content filename code : Text} {attributes : List (Text × Json)}
    (hq : ∀ queries, ¬ Writes h s content filename queries) :
    Leaves h s (.process content filename code attributes) []
  | set (filename : Text) (queries : Queries) :
    Leaves h s (.set filename queries) [.wrote (h.routeKey filename) queries]
  | assign (field : Text) (value : Json) : Leaves h s (.assign field value) []
  | replace (settings : Settings) : Leaves h s (.replace settings) []

/-- The events of a run that begins with the given settings. -/
inductive History (h : Hooks) : Settings → List Step → List Event → Prop
  | nil (s : Settings) : History h s [] []
  | cons {s : Settings} {x : Step} {steps : List Step} {left later : List Event}
    (hl : x.Leaves h s left) (hh : History h (x.settings s) steps later) :
    History h s (x :: steps) (left ++ later)

section Histories

variable {h : Hooks} {s : Settings} {x : Step} {left left' : List Event}

theorem Step.exists_leaves (h : Hooks) (s : Settings) (x : Step) : ∃ left, x.Leaves h s left := by
  cases x with
  | markup content filename =>
    by_cases hq : ∃ queries, Writes h s content filename queries
    · obtain ⟨queries, hq⟩ := hq
      exact ⟨_, .markup hq⟩
    · exact ⟨_, .noMarkup (not_exists.mp hq)⟩
  | script content filename attributes =>
    by_cases hb : Binds s filename attributes
    · exact ⟨_, .script hb⟩
    · exact ⟨_, .noScript hb⟩
  | process content filename code attributes =>
    by_cases hq : ∃ queries, Writes h s content filename queries
    · obtain ⟨queries, hq⟩ := hq
      by_cases hb : Binds s filename attributes
      · exact ⟨_, .process hq hb⟩
      · exact ⟨_, .processMarkup hq hb⟩
    · exact ⟨_, .noProcess (not_exists.mp hq)⟩
  | set filename queries => exact ⟨_, .set filename queries⟩
  | assign field value => exact ⟨_, .assign field value⟩
  | replace settings => exact ⟨_, .replace settings⟩

theorem Step.Leaves.unique (hl : x.Leaves h s left) (hl' : x.Leaves h s left') : left = left' := by
  cases hl with
  | markup hq =>
    cases hl' with
    | markup hq' => rw [hq.unique hq']
    | noMarkup hno => exact absurd hq (hno _)
  | noMarkup hno =>
    cases hl' with
    | markup hq => exact absurd hq (hno _)
    | noMarkup => rfl
  | script hb =>
    cases hl' with
    | script => rfl
    | noScript hno => exact absurd hb hno
  | noScript hno =>
    cases hl' with
    | script hb => exact absurd hb hno
    | noScript => rfl
  | process hq hb =>
    cases hl' with
    | process hq' => rw [hq.unique hq']
    | processMarkup _ hno => exact absurd hb hno
    | noProcess hno => exact absurd hq (hno _)
  | processMarkup hq hno =>
    cases hl' with
    | process _ hb => exact absurd hb hno
    | processMarkup hq' => rw [hq.unique hq']
    | noProcess hno => exact absurd hq (hno _)
  | noProcess hno =>
    cases hl' with
    | process hq => exact absurd hq (hno _)
    | processMarkup hq => exact absurd hq (hno _)
    | noProcess => rfl
  | set => cases hl'; rfl
  | assign => cases hl'; rfl
  | replace => cases hl'; rfl

theorem exists_history (h : Hooks) (s : Settings) (steps : List Step) :
    ∃ events, History h s steps events := by
  induction steps generalizing s with
  | nil => exact ⟨[], .nil s⟩
  | cons x steps ih =>
    obtain ⟨left, hl⟩ := x.exists_leaves h s
    obtain ⟨later, hh⟩ := ih (x.settings s)
    exact ⟨left ++ later, .cons hl hh⟩

theorem History.unique {steps : List Step} {events events' : List Event}
    (hh : History h s steps events) (hh' : History h s steps events') : events = events' := by
  induction hh generalizing events' with
  | nil => cases hh'; rfl
  | cons hl _ ih =>
    cases hh' with
    | cons hl' hh' => rw [hl.unique hl', ih hh']

theorem History.append {before after : List Step} {events later : List Event}
    (hh : History h s before events) (ha : History h (settingsAfter s before) after later) :
    History h s (before ++ after) (events ++ later) := by
  induction hh with
  | nil => exact ha
  | cons hl _ ih =>
    rw [List.append_assoc]
    exact .cons hl (ih ha)

end Histories

/-- Whether an event decides what a key holds. Uses do if used entries are removed. -/
def Event.concerns (discarding : Bool) (key : Text) : Event → Bool
  | .wrote k _ => k = key
  | .used k => discarding && k = key

/-- What a key holds after the events: what the latest event that concerns it has written. -/
def stored (discarding : Bool) (key : Text) (events : List Event) : Option Queries :=
  match events.reverse.find? (Event.concerns discarding key) with
  | some (.wrote _ queries) => some queries
  | _ => none

/-- The latest event decides, unless it does not concern the key. -/
theorem stored_concat (discarding : Bool) (key : Text) (events : List Event) (e : Event) :
    stored discarding key (events ++ [e])
      = if e.concerns discarding key then stored discarding key [e]
        else stored discarding key events := by
  simp only [stored, List.reverse_append, List.reverse_singleton, List.singleton_append,
    List.find?_cons]
  cases e.concerns discarding key <;> rfl

theorem stored_wrote (discarding : Bool) (key k : Text) (queries : Queries)
    (events : List Event) :
    stored discarding key (events ++ [.wrote k queries])
      = if key = k then some queries else stored discarding key events := by
  rw [stored_concat]
  by_cases hk : key = k
  · simp [stored, Event.concerns, hk]
  · simp [Event.concerns, hk, Ne.symm hk]

theorem stored_used (discarding : Bool) (key k : Text) (events : List Event) :
    stored discarding key (events ++ [.used k])
      = if discarding = true ∧ key = k then none else stored discarding key events := by
  rw [stored_concat]
  by_cases hk : discarding = true ∧ key = k
  · simp [stored, Event.concerns, hk]
  · have hno : Event.concerns discarding key (.used k) = false := by
      rw [Event.concerns, Bool.and_eq_false_iff, decide_eq_false_iff_not]
      exact (not_and_or.mp hk).imp Bool.eq_false_of_not_eq_true (mt Eq.symm)
    rw [hno, if_neg hk, if_neg Bool.false_ne_true]

/-! ## The invariant -/

/-- The store holds for every key what the events say. -/
def Inv (h : Hooks) (kind : Store.Kind) (used : List Text) (events : List Event)
    (p : Preprocessor) : Prop :=
  ∃ entries : OrderedMap Text Queries, p.store.Keeps used entries kind ∧
    ∀ key, entries.get? key = stored h.discardAfterScript key events

/-- Everything that the events write survives its way into a store of the kind. -/
def Writable (kind : Store.Kind) (events : List Event) : Prop :=
  ∀ codec, kind = .disk codec → ∀ key queries, .wrote key queries ∈ events →
    Entry.Preserved codec key queries

theorem writable_append {kind : Store.Kind} {events later : List Event} :
    Writable kind (events ++ later) ↔ Writable kind events ∧ Writable kind later := by
  simp only [Writable, List.mem_append, or_imp, forall_and]

/-- An answer of the script phase: the code for what the page's key holds, then the script. -/
def Correlated (h : Hooks) (s : Settings) (events : List Event) (content filename : Text)
    (answer : Except PageError (Option Text)) : Prop :=
  ∃ code,
    Script.build (h.routeKey filename)
      ((stored h.discardAfterScript (h.routeKey filename) events).getD .empty)
      ⟨s.pause, s.package⟩ = .ok code ∧
    answer = .ok (some (code ++ content))

section Phases

variable {h : Hooks} {kind : Store.Kind} {used : List Text} {events : List Event}
  {p : Preprocessor} {content filename code : Text} {attributes : List (Text × Json)}
  {queries : Queries}

theorem inv_fresh (h : Hooks) (kind : Store.Kind) (used : List Text) (settings : Settings) :
    Inv h kind used [] ⟨settings, .fresh kind⟩ :=
  ⟨.empty, .fresh used kind, fun _ => rfl⟩

theorem inv_wrote (hd : kind ≠ .memory → Digest.Distinguishes used)
    (hi : Inv h kind used events p) {key : Text} (hk : key ∈ used)
    (hw : Writable kind [.wrote key queries]) :
    Inv h kind used (events ++ [.wrote key queries])
      { p with store := p.store.set key queries } := by
  obtain ⟨entries, hs, hget⟩ := hi
  refine ⟨entries.renew key queries,
    hs.set hd hk fun codec hc => hw codec hc _ _ List.mem_cons_self, fun key' => ?_⟩
  rw [OrderedMap.get?_renew, stored_wrote, hget]

/-! ### One phase -/

theorem inv_markup (hd : kind ≠ .memory → Digest.Distinguishes used)
    (hi : Inv h kind used events p) (hk : h.routeKey filename ∈ used)
    (hq : Writes h p.settings content filename queries)
    (hw : Writable kind [.wrote (h.routeKey filename) queries]) :
    Inv h kind used (events ++ [.wrote (h.routeKey filename) queries])
      (p.markup h content filename).after := by
  obtain ⟨hm, rs, hr, rfl⟩ := writes_iff.mp hq
  rw [markup_ok hm hr]
  exact inv_wrote hd hi hk hw

theorem after_markup_of_not_writes
    (hq : ∀ queries, ¬ Writes h p.settings content filename queries) :
    (p.markup h content filename).after = p := by
  cases hm : p.settings.manages filename with
  | false => rw [markup_unmanaged hm]
  | true =>
    cases hr : records h content filename with
    | error e => rw [markup_error hm hr]
    | ok rs => exact absurd (writes_iff.mpr ⟨hm, rs, hr, rfl⟩) (hq _)

/-- A script phase that binds queries has the right answer, and uses up the entry of its page. -/
theorem inv_script (hd : kind ≠ .memory → Digest.Distinguishes used)
    (hi : Inv h kind used events p) (hk : h.routeKey filename ∈ used)
    (hb : Binds p.settings filename attributes) (content : Text) :
    Inv h kind used (events ++ [.used (h.routeKey filename)])
      (p.script h content filename attributes).after ∧
    Correlated h p.settings events content filename
      (p.script h content filename attributes).answer := by
  obtain ⟨entries, hs, hget⟩ := hi
  obtain ⟨store, hg, hs'⟩ := hs.get hd hk
  obtain ⟨code, hcode, hanswer, hafter⟩ := script_eq content (binds_iff.mp hb) hg
  rw [hget] at hcode
  refine ⟨?_, code, hcode, hanswer⟩
  rw [hafter]
  cases hdis : h.discardAfterScript with
  | true =>
    refine ⟨_, hs'.discard hd hk, fun key => ?_⟩
    rw [OrderedMap.get?_erase, hget, hdis, stored_used]
    simp only [true_and]
  | false =>
    refine ⟨entries, hs', fun key => ?_⟩
    rw [hget, hdis, stored_used]
    simp only [Bool.false_eq_true, false_and, if_false]

theorem script_of_not_binds (hb : ¬ Binds p.settings filename attributes) (content : Text) :
    p.script h content filename attributes = ⟨.ok none, p, []⟩ :=
  script_left_alone (Bool.not_eq_true _ ▸ mt binds_iff.mpr hb)

/-! ### Both phases at once -/

/-- Where the markup phase writes queries, the script phase begins where it has ended. -/
theorem process_of_writes (hq : Writes h p.settings content filename queries) (code : Text)
    (attributes : List (Text × Json)) :
    (p.process h content filename code attributes).answer.map Prod.snd
        = ((p.markup h content filename).after.script h code filename attributes).answer ∧
      (p.process h content filename code attributes).after
        = ((p.markup h content filename).after.script h code filename attributes).after := by
  obtain ⟨hm, rs, hr, -⟩ := writes_iff.mp hq
  rw [process_ok (markup_ok hm hr), markup_ok hm hr]
  refine ⟨?_, rfl⟩
  generalize (Preprocessor.script h _ code filename attributes).answer = answer
  cases answer <;> rfl

theorem after_process_of_not_writes
    (hq : ∀ queries, ¬ Writes h p.settings content filename queries) :
    (p.process h content filename code attributes).after = p := by
  cases hm : p.settings.manages filename with
  | false =>
    have hb : ¬ Binds p.settings filename attributes := fun hb => by
      rw [manages_iff.mpr hb.managed] at hm
      cases hm
    rw [process_ok (markup_unmanaged hm), script_of_not_binds hb]
  | true =>
    cases hr : records h content filename with
    | error e => rw [process_error (markup_error hm hr)]
    | ok rs => exact absurd (writes_iff.mpr ⟨hm, rs, hr, rfl⟩) (hq _)

/-- `process` is its markup phase, then its script phase, under the same settings. -/
theorem inv_process (hd : kind ≠ .memory → Digest.Distinguishes used)
    (hi : Inv h kind used events p) (hk : h.routeKey filename ∈ used)
    (hq : Writes h p.settings content filename queries)
    (hb : Binds p.settings filename attributes)
    (hw : Writable kind [.wrote (h.routeKey filename) queries]) (code : Text) :
    Inv h kind used
      (events ++ [.wrote (h.routeKey filename) queries, .used (h.routeKey filename)])
      (p.process h content filename code attributes).after ∧
    Correlated h p.settings (events ++ [.wrote (h.routeKey filename) queries]) code filename
      ((p.process h content filename code attributes).answer.map Prod.snd) := by
  obtain ⟨hanswer, hafter⟩ := process_of_writes hq code attributes
  rw [← settings_markup h p content filename] at hb ⊢
  obtain ⟨hi', hcor⟩ := inv_script hd (inv_markup hd hi hk hq hw) hk hb code
  rw [hanswer, hafter]
  rw [List.append_assoc] at hi'
  exact ⟨hi', hcor⟩

end Phases

/-! ## Steps and runs -/

/-- The key whose entry a step is about. -/
def Step.key? (h : Hooks) : Step → Option Text
  | .markup _ filename | .script _ filename _ | .process _ filename _ _ | .set filename _ =>
    some (h.routeKey filename)
  | .assign .. | .replace _ => none

/-- The keys that a run is about. -/
def usedKeys (h : Hooks) (steps : List Step) : List Text := steps.filterMap (Step.key? h)

/-- The script phase of a step, if it has one that binds queries, gives the right answer. In
`process` that is the phase behind a markup phase which has written. -/
def Step.Correlates (h : Hooks) (events : List Event) (p : Preprocessor) : Step → Prop
  | .script content filename attributes =>
    Binds p.settings filename attributes →
      Correlated h p.settings events content filename
        (p.script h content filename attributes).answer
  | .process content filename code attributes =>
    Binds p.settings filename attributes →
      ∀ queries, Writes h p.settings content filename queries →
        Correlated h p.settings (events ++ [.wrote (h.routeKey filename) queries]) code filename
          ((p.process h content filename code attributes).answer.map Prod.snd)
  | _ => True

section Runs

variable {h : Hooks} {kind : Store.Kind} {used : List Text} {events left : List Event}
  {p : Preprocessor} {x : Step}

theorem settings_step (h : Hooks) (p : Preprocessor) (x : Step) :
    (step h p x).settings = x.settings p.settings := by
  cases x with
  | markup content filename => exact settings_markup h p content filename
  | script content filename attributes => exact settings_script h p content filename attributes
  | process content filename code attributes =>
    exact settings_process h p content filename code attributes
  | set => rfl
  | assign => rfl
  | replace => rfl

/-- One step: the store goes on holding what the events say. -/
theorem inv_step (hd : kind ≠ .memory → Digest.Distinguishes used) (hi : Inv h kind used events p)
    (hk : ∀ key, x.key? h = some key → key ∈ used) (hl : x.Leaves h p.settings left)
    (hw : Writable kind left) : Inv h kind used (events ++ left) (step h p x) := by
  cases hl with
  | markup hq => exact inv_markup hd hi (hk _ rfl) hq hw
  | noMarkup hno =>
    rw [step, after_markup_of_not_writes hno, List.append_nil]
    exact hi
  | script hb => exact (inv_script hd hi (hk _ rfl) hb _).1
  | noScript hno =>
    rw [step, script_of_not_binds hno, List.append_nil]
    exact hi
  | process hq hb =>
    exact (inv_process hd hi (hk _ rfl) hq hb (writable_append.mp hw).1 _).1
  | processMarkup hq hno =>
    rw [step, (process_of_writes hq _ _).2, script_of_not_binds (by rwa [settings_markup])]
    exact inv_markup hd hi (hk _ rfl) hq hw
  | noProcess hno =>
    rw [step, after_process_of_not_writes hno, List.append_nil]
    exact hi
  | set filename queries => exact inv_wrote hd hi (hk _ rfl) hw
  | assign field value =>
    rw [List.append_nil]
    exact hi
  | replace settings =>
    obtain ⟨entries, hs, hget⟩ := hi
    rw [List.append_nil]
    exact ⟨entries, hs.handedOver, hget⟩

/-- The script phase of a step gives the right answer. -/
theorem correlates_step (hd : kind ≠ .memory → Digest.Distinguishes used)
    (hi : Inv h kind used events p) (hk : ∀ key, x.key? h = some key → key ∈ used)
    (hl : x.Leaves h p.settings left) (hw : Writable kind left) : x.Correlates h events p := by
  cases x with
  | script content filename attributes =>
    exact fun hb => (inv_script hd hi (hk _ rfl) hb content).2
  | process content filename code attributes =>
    intro hb queries hq
    obtain rfl := hl.unique (.process hq hb)
    exact (inv_process hd hi (hk _ rfl) hq hb (writable_append.mp hw).1 code).2
  | _ => trivial

/-- Whole runs keep the invariant. -/
theorem inv_run (hd : kind ≠ .memory → Digest.Distinguishes used) (hi : Inv h kind used events p)
    {steps : List Step} {later : List Event}
    (hk : ∀ x ∈ steps, ∀ key, x.key? h = some key → key ∈ used)
    (hh : History h p.settings steps later) (hw : Writable kind later) :
    Inv h kind used (events ++ later) (run h p steps) ∧
    (run h p steps).settings = settingsAfter p.settings steps := by
  induction steps generalizing p events later with
  | nil =>
    cases hh
    exact ⟨by rw [List.append_nil]; exact hi, rfl⟩
  | cons x steps ih =>
    cases hh with
    | @cons _ _ _ left later hl hh =>
      obtain ⟨hwx, hws⟩ := writable_append.mp hw
      have hi' := inv_step hd hi (hk x List.mem_cons_self) hl hwx
      rw [← settings_step] at hh
      obtain ⟨hrun, hsettings⟩ := ih hi' (fun y hy => hk y (List.mem_cons_of_mem _ hy)) hh hws
      rw [List.append_assoc] at hrun
      rw [settings_step] at hsettings
      exact ⟨hrun, hsettings⟩

end Runs

/-- **The two phases correlate.** Every run from an empty store has one history, and every script
phase in it answers with the code generated for what the history says its page's key holds, under
the settings in force. -/
theorem scripts_correlate (h : Hooks) (settings : Settings) (kind : Store.Kind)
    (steps : List Step) (hd : kind ≠ .memory → Digest.Distinguishes (usedKeys h steps))
    (hw : ∀ events, History h settings steps events → Writable kind events)
    (before after : List Step) (x : Step) (hx : steps = before ++ x :: after) :
    (∃! events, History h settings before events) ∧
      ∀ events, History h settings before events →
        x.Correlates h events (run h ⟨settings, .fresh kind⟩ before) := by
  subst hx
  refine ⟨?_, fun events hh => ?_⟩
  · obtain ⟨events, hh⟩ := exists_history h settings before
    exact ⟨events, hh, fun _ hh' => hh'.unique hh⟩
  have hused : ∀ y ∈ before ++ x :: after, ∀ key, y.key? h = some key →
      key ∈ usedKeys h (before ++ x :: after) := fun y hy key he =>
    List.mem_filterMap.mpr ⟨y, hy, he⟩
  obtain ⟨left, hl⟩ := x.exists_leaves h (settingsAfter settings before)
  obtain ⟨later, hlater⟩ := exists_history h (x.settings (settingsAfter settings before)) after
  obtain ⟨hwb, hwx⟩ := writable_append.mp (hw _ (hh.append (.cons hl hlater)))
  obtain ⟨hi, hset⟩ := inv_run hd (inv_fresh h kind _ settings)
    (fun y hy => hused y (List.mem_append_left _ hy)) hh hwb
  rw [← hset] at hl
  exact correlates_step hd hi (hused x (List.mem_append_right _ List.mem_cons_self)) hl
    (writable_append.mp hwx).1

/-! ## A run of two pages -/

/-- Each page is one query; entries are removed when they have been used. -/
def wholePage : Hooks where
  extract content := .ok [.record ⟨"q".toList, content, false, []⟩]
  highlight := Markup.highlight
  frontmatter _ := none
  routeKey filename := filename
  discardAfterScript := true

/-- The markup phases of two pages, and their script phases in another process. -/
def interleaved : List Step :=
  [.markup "select 1".toList "a.md".toList, .markup "select 2".toList "b.md".toList,
    .replace .default, .script "let b;".toList "b.md".toList [],
    .script "let a;".toList "a.md".toList []]

theorem distinguishes_interleaved : Digest.Distinguishes (usedKeys wholePage interleaved) := by
  unfold Digest.Distinguishes
  decide +kernel

theorem writes_wholePage (text : Text) {filename : Text}
    (hm : Settings.default.manages filename = true) :
    Writes wholePage .default text filename (.ofList [("q".toList, text)]) :=
  writes_iff.mpr ⟨hm, _, rfl, rfl⟩

theorem binds_default {filename : Text} (hm : Settings.default.manages filename = true) :
    Binds .default filename [] :=
  ⟨manages_iff.mp hm, nofun⟩

/-- The events before the last script phase. -/
def eventsBeforeLast : List Event :=
  [.wrote "a.md".toList (.ofList [("q".toList, "select 1".toList)]),
    .wrote "b.md".toList (.ofList [("q".toList, "select 2".toList)]), .used "b.md".toList]

theorem history_beforeLast :
    History wholePage .default (interleaved.take 4) eventsBeforeLast := by
  refine .cons (.markup (writes_wholePage _ (by decide +kernel))) ?_
  refine .cons (.markup (writes_wholePage _ (by decide +kernel))) ?_
  exact .cons (.replace _) (.cons (.script (binds_default (by decide +kernel))) (.nil _))

theorem history_interleaved : History wholePage .default interleaved
    (eventsBeforeLast ++ [.used "a.md".toList]) :=
  history_beforeLast.append (.cons (.script (binds_default (by decide +kernel))) (.nil _))

theorem writable_interleaved {events : List Event}
    (hh : History wholePage .default interleaved events) :
    Writable (.disk (some Frame.codec)) events := by
  rintro codec ⟨⟩ key queries hm
  rw [hh.unique history_interleaved] at hm
  simp only [eventsBeforeLast, List.mem_append, List.mem_cons, List.not_mem_nil, or_false,
    reduceCtorEq, Event.wrote.injEq] at hm
  rcases hm with ⟨rfl, rfl⟩ | ⟨rfl, rfl⟩
  · exact Entry.preserved_frame (by decide +kernel)
  · exact Entry.preserved_frame (by decide +kernel)

/-- The preprocessor before the last script phase. -/
def beforeLast : Preprocessor :=
  run wholePage ⟨.default, .fresh (.disk (some Frame.codec))⟩ (interleaved.take 4)

/-- The last script phase binds the query of its own page, though the other page has been through
both phases in between. -/
theorem scripts_correlate_interleaved :
    ∃ code,
      Script.build "a.md".toList (.ofList [("q".toList, "select 1".toList)])
        ⟨beforeLast.settings.pause, beforeLast.settings.package⟩ = .ok code ∧
      (beforeLast.script wholePage "let a;".toList "a.md".toList []).answer
        = .ok (some (code ++ "let a;".toList)) := by
  have hx : interleaved
      = interleaved.take 4 ++ .script "let a;".toList "a.md".toList [] :: [] := rfl
  have hm : beforeLast.settings.manages "a.md".toList = true := by decide +kernel
  obtain ⟨-, hall⟩ := scripts_correlate wholePage .default (.disk (some Frame.codec)) interleaved
    (fun _ => distinguishes_interleaved) (fun _ => writable_interleaved) _ _ _ hx
  have hstored : stored wholePage.discardAfterScript (wholePage.routeKey "a.md".toList)
      eventsBeforeLast = some (.ofList [("q".toList, "select 1".toList)]) := rfl
  have hbinds : Binds beforeLast.settings "a.md".toList [] := ⟨manages_iff.mp hm, nofun⟩
  have hcor : Correlated wholePage beforeLast.settings eventsBeforeLast "let a;".toList
      "a.md".toList (beforeLast.script wholePage "let a;".toList "a.md".toList []).answer :=
    hall _ history_beforeLast hbinds
  rw [Correlated, hstored] at hcor
  exact hcor

end PageQueries.Preprocessor
