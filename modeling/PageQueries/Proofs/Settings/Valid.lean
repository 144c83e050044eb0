import PageQueries.Proofs.Path
import PageQueries.Proofs.Settings.Override
import PageQueries.Proofs.Text.Trim

/-!
# Settings stay valid

Checks do not only refuse values, they rewrite them: an extension is trimmed
and gets its point, a folder is brought into its normal form. `Valid` says what
they leave behind. A value that is left behind is accepted as it is, so settings
that are read again from their own fields are the same settings.

Settings are made from given values or from an environment (`Made`), and then
assigned to field by field. An assignment is checked like the value of the same
field when the settings were made; one that is refused leaves them alone
(`assigned`).

Results:
* `valid_of_ofMembers`, `valid_assign`: settings are made valid, and an accepted
  assignment keeps them so.
* `ofMembers_toMembers`: valid settings are read back from their own fields.
* `assignAll_refused`: a refused assignment leaves no trace in a history.
* `valid_assignAll`: all of this after any assignments.
-/
namespace PageQueries.Settings

open Text

/-- What the checks of the fields leave behind. -/
structure Valid (s : Settings) : Prop where
  point : s.extension.head? = some '.'
  trimmed : Trimmed s.extension
  pause : 0 < s.pause
  storeDir : ∀ p, s.storeDir = some p → Path.ofText p.text = p

/-- Settings as they are made: from the values of fields, or from the variables of an environment
and values that override them. -/
inductive Made : Settings → Prop
  | ofMembers {members : List (Text × Json)} {s : Settings} (h : ofMembers members = .ok s) :
    Made s
  | ofEnvironment {env : Environment} {overrides : List (Text × Json)} {s : Settings}
    (h : ofEnvironment env overrides = .ok s) : Made s

/-- The settings after an assignment, accepted or refused. -/
def assigned (s : Settings) (name : Text) (v : Json) : Settings :=
  match s.assign name v with
  | .ok s' => s'
  | .error _ => s

/-- The settings after some assignments, one after another. -/
def assignAll (s : Settings) : List (Text × Json) → Settings
  | [] => s
  | (name, v) :: assignments => (s.assigned name v).assignAll assignments

variable {s s' : Settings} {members : List (Text × Json)} {name : Text} {v : Json}

/-! ## What the checks leave behind -/

theorem point_of_acceptExtension {t : Text} (h : acceptExtension v = .ok t) :
    t.head? = some '.' ∧ Trimmed t := by
  obtain ⟨u, -, h⟩ := bind_eq_ok_iff.mp h
  have htrimmed := trimmed_trim u
  split at h
  · cases h
  · next rest htrim =>
    cases h
    exact ⟨rfl, htrim ▸ htrimmed⟩
  · next hne hpoint =>
    cases h
    refine ⟨rfl, fun c hc => ?_, fun c hc => htrimmed.last c ?_⟩
    · obtain rfl := Option.some.inj hc
      decide
    · rwa [List.getLast?_cons_of_ne_nil hne] at hc

theorem pos_of_acceptPause {n : Int} (h : acceptPause v = .ok n) : 0 < n := by
  obtain ⟨m, -, h⟩ := bind_eq_ok_iff.mp h
  split at h
  · cases h
  · next hpos =>
    cases h
    omega

theorem normal_of_acceptStoreDir {dir : Option Path} (h : acceptStoreDir v = .ok dir) :
    ∀ p, dir = some p → Path.ofText p.text = p := by
  intro p hp
  subst hp
  unfold acceptStoreDir at h
  split at h
  · cases h
  · cases h
    exact Path.ofText_text (Path.normal_ofText _)
  · cases h

theorem valid_default : Valid default :=
  ⟨rfl, by decide, by decide, fun _ hp => nomatch hp⟩

/-- A field has its default or a value that was accepted. -/
theorem of_fieldOf {α : Type} {P : α → Prop} {f : Field} {a b : α}
    {accept : Json → Except Fault α} (hdefault : P a) (haccept : ∀ v b, accept v = .ok b → P b)
    (h : fieldOf members f a accept = .ok b) : P b := by
  rcases checkField_eq_ok_iff.mp h with ⟨v, -, hv⟩ | ⟨-, hb⟩
  · exact haccept v b (checkAt_eq_ok_iff.mp hv)
  · exact Option.some.inj hb ▸ hdefault

theorem valid_of_ofMembers (h : ofMembers members = .ok s) : Valid s := by
  obtain ⟨-, hextension, hpause, -, hstoreDir⟩ := ofMembers_eq_ok_iff.mp h
  obtain ⟨hpoint, htrimmed⟩ := of_fieldOf (P := fun t : Text => t.head? = some '.' ∧ Trimmed t)
    ⟨valid_default.point, valid_default.trimmed⟩ (fun _ _ => point_of_acceptExtension) hextension
  exact ⟨hpoint, htrimmed,
    of_fieldOf valid_default.pause (fun _ _ => pos_of_acceptPause) hpause,
    of_fieldOf (P := fun dir : Option Path => ∀ p, dir = some p → Path.ofText p.text = p)
      valid_default.storeDir (fun _ _ => normal_of_acceptStoreDir) hstoreDir⟩

theorem Made.valid (h : Made s) : Valid s := by
  cases h with
  | ofMembers h => exact valid_of_ofMembers h
  | ofEnvironment h => exact valid_of_ofMembers h

/-! ## Assignments -/

theorem valid_put {f : Field} (hs : Valid s) (h : s.put f v = .ok s') : Valid s' := by
  cases f with
  | developmentMode =>
    obtain ⟨b, -, rfl⟩ := map_eq_ok_iff.mp h
    exact { hs with }
  | extension =>
    obtain ⟨t, ht, rfl⟩ := map_eq_ok_iff.mp h
    obtain ⟨hpoint, htrimmed⟩ := point_of_acceptExtension ht
    exact { hs with point := hpoint, trimmed := htrimmed }
  | pause =>
    obtain ⟨n, hn, rfl⟩ := map_eq_ok_iff.mp h
    exact { hs with pause := pos_of_acceptPause hn }
  | package =>
    obtain ⟨t, -, rfl⟩ := map_eq_ok_iff.mp h
    exact { hs with }
  | storeDir =>
    obtain ⟨dir, hdir, rfl⟩ := map_eq_ok_iff.mp h
    exact { hs with storeDir := normal_of_acceptStoreDir hdir }

/-- What an accepted assignment does: nothing to a private name, else it puts the value into a
field. -/
theorem assign_cases (h : s.assign name v = .ok s') :
    isPrivateName name = true ∧ s' = s ∨ ∃ f : Field, f.name = name ∧ s.put f v = .ok s' := by
  unfold assign at h
  split at h
  · next hprivate =>
    cases h
    exact Or.inl ⟨hprivate, rfl⟩
  · split at h
    · cases h
    · split at h
      · next f hf =>
        refine Or.inr ⟨f, ?_, mapError_eq_ok_iff.mp h⟩
        simpa using List.find?_some hf
      · cases h

theorem valid_assign (hs : Valid s) (h : s.assign name v = .ok s') : Valid s' := by
  rcases assign_cases h with ⟨-, rfl⟩ | ⟨f, -, hput⟩
  · exact hs
  · exact valid_put hs hput

theorem assigned_of_ok (h : s.assign name v = .ok s') : s.assigned name v = s' := by
  rw [assigned, h]

theorem assigned_of_error {refusal : AssignmentRefusal} (h : s.assign name v = .error refusal) :
    s.assigned name v = s := by
  rw [assigned, h]

theorem valid_assigned (hs : Valid s) (name : Text) (v : Json) : Valid (s.assigned name v) := by
  cases h : s.assign name v with
  | ok s' => exact assigned_of_ok h ▸ valid_assign hs h
  | error refusal => exact (assigned_of_error h).symm ▸ hs

theorem Valid.assignAll (hs : Valid s) (assignments : List (Text × Json)) :
    Valid (s.assignAll assignments) := by
  induction assignments generalizing s with
  | nil => exact hs
  | cons p assignments ih => exact ih (valid_assigned hs p.1 p.2)

theorem assignAll_append (s : Settings) (first later : List (Text × Json)) :
    s.assignAll (first ++ later) = (s.assignAll first).assignAll later := by
  induction first generalizing s with
  | nil => rfl
  | cons p first ih => exact ih (s.assigned p.1 p.2)

/-- A history goes on as if a refused assignment had not been tried. -/
theorem assignAll_refused {first : List (Text × Json)} {refusal : AssignmentRefusal}
    (h : (s.assignAll first).assign name v = .error refusal) (later : List (Text × Json)) :
    s.assignAll (first ++ (name, v) :: later) = s.assignAll (first ++ later) := by
  rw [assignAll_append, assignAll_append, assignAll, assigned_of_error h]

/-! ## Reading settings back -/

theorem acceptExtension_self {t : Text} (hpoint : t.head? = some '.') (htrimmed : Trimmed t) :
    acceptExtension (.text t) = .ok t := by
  obtain ⟨rest, rfl⟩ := List.head?_eq_some_iff.mp hpoint
  refine bind_eq_ok_iff.mpr ⟨'.' :: rest, rfl, ?_⟩
  rw [trim_eq_self_iff.mpr htrimmed]
  rfl

theorem acceptPause_self {n : Int} (h : 0 < n) : acceptPause (.int n) = .ok n :=
  if_neg (by omega)

theorem acceptStoreDir_self {dir : Option Path}
    (h : ∀ p, dir = some p → Path.ofText p.text = p) :
    acceptStoreDir ((dir.map fun p => Json.text p.text).getD .null) = .ok dir := by
  cases dir with
  | none => rfl
  | some p => exact congrArg (fun q => Except.ok (some q)) (h p rfl)

theorem fieldOf_toMembers {α : Type} (s : Settings) (f : Field) (a : α)
    (accept : Json → Except Fault α) :
    fieldOf s.toMembers f a accept = checkAt [f.name] accept (s.get f) := by
  have hlookup : s.toMembers.lookup f.name = some (s.get f) := by
    cases f <;> rfl
  unfold fieldOf checkField
  rw [hlookup]

/-- Valid settings are what their own fields are read as. -/
theorem ofMembers_toMembers (hs : Valid s) : ofMembers s.toMembers = .ok s := by
  simp only [ofMembers_eq_ok_iff, fieldOf_toMembers, checkAt_eq_ok_iff]
  exact ⟨rfl, acceptExtension_self hs.point hs.trimmed, acceptPause_self hs.pause, rfl,
    acceptStoreDir_self hs.storeDir⟩

/-- **Settings stay valid**: however they were made and whatever was assigned to them since, they
are valid and are read back from their own fields, and a refused assignment leaves no trace. -/
theorem valid_assignAll (h : Made s) (assignments : List (Text × Json)) :
    Valid (s.assignAll assignments) ∧
      ofMembers (s.assignAll assignments).toMembers = .ok (s.assignAll assignments) ∧
      ∀ name v refusal, (s.assignAll assignments).assign name v = .error refusal →
        (s.assignAll assignments).assigned name v = s.assignAll assignments ∧
        ∀ later, s.assignAll (assignments ++ (name, v) :: later)
          = s.assignAll (assignments ++ later) := by
  have hvalid := h.valid.assignAll assignments
  refine ⟨hvalid, ofMembers_toMembers hvalid, fun name v refusal hrefused => ?_⟩
  exact ⟨assigned_of_error hrefused, assignAll_refused hrefused⟩

/-- What a user may have written. -/
def written : List (Text × Json) :=
  [("managed_extension".toList, .text "\u2003markdown \n".toList),
    ("store_dir".toList, .text ".//cache/./pages/".toList)]

/-- What is kept of it. -/
def kept : Settings :=
  { default with
    extension := ".markdown".toList
    storeDir := some ⟨[], ["cache".toList, "pages".toList]⟩ }

def longerPause : Text × Json := ("debounce_ms".toList, .text " +1_500.0".toList)

def otherExtension : Text × Json := ("managed_extension".toList, .text "\t..page".toList)

/-- The settings after both assignments. -/
def changed : Settings := { kept with pause := 1500, extension := "..page".toList }

/-- Between the two, one is refused. -/
theorem valid_assignAll_changed :
    ofMembers written = .ok kept ∧ Valid changed ∧ ofMembers changed.toMembers = .ok changed ∧
      kept.assignAll [longerPause, ("debounce_ms".toList, .int 0), otherExtension] = changed := by
  have hkept : ofMembers written = .ok kept := rfl
  have hchanged : kept.assignAll [longerPause, otherExtension] = changed := rfl
  obtain ⟨hvalid, hread, -⟩ := valid_assignAll (.ofMembers hkept) [longerPause, otherExtension]
  obtain ⟨-, -, hrefused⟩ := valid_assignAll (.ofMembers hkept) [longerPause]
  obtain ⟨-, htrace⟩ := hrefused "debounce_ms".toList (.int 0) _ rfl
  rw [hchanged] at hvalid hread
  exact ⟨hkept, hvalid, hread, (htrace [otherExtension]).trans hchanged⟩

end PageQueries.Settings
