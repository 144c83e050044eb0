import PageQueries.Proofs.Settings.EnvFile
import PageQueries.Proofs.Settings.Override

/-!
# Where settings come from

Settings are configured from four layers: overrides, the environment, a file
with more variables, and the defaults. `chosen` says for one field which layer
counts. The fields have two rules of their own: an empty variable selects the
default, though it hides the variable of the file; and the variable of the
development mode is never empty in this sense, since it turns the mode off.

What the program does is another thing: it sets the variables of the file in the
environment, reads the environment, and puts the overrides over what it has
read. `configure_precedence` says that the settings are those that are made from
the chosen values, or are refused as these are. It says too when there are no
settings because the file cannot be loaded, which the values have no part in
(`not_settings_alone_quotedName`).

`configure_again`: configuring a second time, in the environment that the first
time has left, gives the same and changes nothing.

Both hold of any bindings, whatever reader has found them in the text of a file;
`configure` is the case of `EnvFile.bindings`.
-/
namespace PageQueries.Settings

open EnvFile (Binding Loadable variablesOf)

/-- The override of a field, if it is given and not null. -/
def given? (overrides : OrderedMap Text Json) (f : Field) : Option Json :=
  (overrides.get? f.name).filter (!isNull ·)

/-- The value of a variable: the one in the environment, even if it is empty, else the one that the
file sets. -/
def found (env : Environment) (vars : List Binding) (name : Text) : Option Text :=
  (env.get? name).or (vars.lookup name).join

/-- The value of a field: its override, else what its variable says, else its default. -/
def chosen (env : Environment) (vars : List Binding) (overrides : OrderedMap Text Json)
    (f : Field) : Json :=
  match given? overrides f with
  | some v => v
  | none =>
    match f, found env vars f.variableName with
    | .developmentMode, some value => .bool (trueModes.contains (Text.lower (Text.trim value)))
    | .developmentMode, none => .bool false
    | _, some (c :: value) => .text (c :: value)
    | _, _ => default.get f

/-- The chosen values of all fields. -/
def chosenMembers (env : Environment) (vars : List Binding) (overrides : OrderedMap Text Json) :
    List (Text × Json) :=
  Field.order.map fun f => (f.name, chosen env vars overrides f)

variable {env env' : Environment} {file vars : List Binding}
  {overrides : OrderedMap Text Json} {members : List (Text × Json)}

/-! ## Overrides -/

/-- Of two layers the upper one counts where it says something. -/
theorem lookup_foldl_put {ps : List (Text × Json)} (hn : (ps.map Prod.fst).Nodup)
    (values : List (Text × Json)) (name : Text) :
    (ps.foldl (fun vs p => Pairs.put p.1 p.2 vs) values).lookup name
      = (ps.lookup name).or (values.lookup name) := by
  induction ps generalizing values with
  | nil => rfl
  | cons p ps ih =>
    obtain ⟨hnew, hrest⟩ := List.nodup_cons.mp hn
    rw [List.foldl_cons, ih hrest, Pairs.lookup_put, Pairs.lookup_cons_eq_ite]
    by_cases hname : name = p.1
    · simp [hname, Pairs.lookup_of_notMem hnew]
    · simp [hname]

theorem lookup_override (values : List (Text × Json)) (f : Field) :
    (override values overrides.toList).lookup f.name
      = (given? overrides f).or (values.lookup f.name) := by
  have hn : ((overrides.toList.filter (!isNull ·.2)).map Prod.fst).Nodup :=
    overrides.nodup.sublist (List.filter_sublist.map _)
  have hgiven : (overrides.toList.filter (!isNull ·.2)).lookup f.name = given? overrides f := by
    ext v
    rw [Pairs.lookup_eq_some_iff_mem hn, List.mem_filter, given?, Option.filter_eq_some_iff,
      OrderedMap.get?_eq_some_iff]
  rw [override, lookup_foldl_put hn, hgiven]

/-! ## Variables -/

theorem Field.name_inj {f g : Field} : f.name = g.name ↔ f = g := by
  cases f <;> cases g <;> decide

theorem lookup_filterMap_name (g : Field → Option Json) {fs : List Field} (hn : fs.Nodup)
    (f : Field) :
    (fs.filterMap fun f => (g f).map (f.name, ·)).lookup f.name = if f ∈ fs then g f else none := by
  induction fs with
  | nil => rfl
  | cons h fs ih =>
    obtain ⟨hnew, hrest⟩ := List.nodup_cons.mp hn
    rw [List.filterMap_cons]
    by_cases hf : f = h
    · subst hf
      cases hg : g f with
      | none => simp [ih hrest, hnew]
      | some v => simp
    · have hname : f.name ≠ h.name := fun e => hf (Field.name_inj.mp e)
      cases hg : g h with
      | none => simp [ih hrest, hf]
      | some v => simp [Pairs.lookup_cons_eq_ite, ih hrest, hf, hname]

/-- What the environment says about a field. -/
theorem lookup_variableValues (env : Environment) (f : Field) :
    (variableValues env).lookup f.name = (env.get? f.variableName).bind f.ofVariable := by
  have hmem : f ∈ Field.order := by cases f <;> decide
  rw [variableValues, lookup_filterMap_name _ (by decide), if_pos hmem]

theorem lookup_chosenMembers (f : Field) :
    (chosenMembers env vars overrides).lookup f.name = some (chosen env vars overrides f) := by
  cases f <;> rfl

/-- Without an override it is the variable that is asked, and then the default. -/
theorem chosen_of_not_given {f : Field} (h : given? overrides f = none) :
    chosen env vars overrides f
      = ((found env vars f.variableName).bind f.ofVariable).getD (default.get f) := by
  unfold chosen
  rw [h]
  cases f with
  | developmentMode => cases found env vars Field.developmentMode.variableName <;> rfl
  | _ =>
    dsimp only
    generalize found env vars _ = value
    rcases value with _ | _ | ⟨c, value⟩ <;> rfl

/-- A field is read as if its chosen value were given. -/
theorem fieldOf_chosenMembers {α : Type} {f : Field} {a : α} {accept : Json → Except Fault α}
    (hdefault : accept (default.get f) = .ok a)
    (henv : ∀ name, env'.get? name = found env vars name) :
    fieldOf (override (variableValues env') overrides.toList) f a accept
      = fieldOf (chosenMembers env vars overrides) f a accept := by
  unfold fieldOf checkField
  rw [lookup_chosenMembers, lookup_override, lookup_variableValues, henv]
  cases hgiven : given? overrides f with
  | some v => simp only [chosen, hgiven, Option.some_or]
  | none =>
    rw [chosen_of_not_given hgiven, Option.none_or]
    cases (found env vars f.variableName).bind f.ofVariable with
    | some v => rfl
    | none => exact (checkAt_eq_ok_iff.mpr hdefault).symm

theorem ofMembers_congr {members' : List (Text × Json)}
    (h : ∀ {α : Type} {f : Field} {a : α} {accept : Json → Except Fault α},
      accept (default.get f) = .ok a → fieldOf members f a accept = fieldOf members' f a accept) :
    ofMembers members = ofMembers members' := by
  have hmode := @h _ .developmentMode default.developmentMode acceptBool rfl
  have hextension := @h _ .extension default.extension acceptExtension rfl
  have hpause := @h _ .pause default.pause acceptPause rfl
  have hpackage := @h _ .package default.package acceptText rfl
  have hstoreDir := @h _ .storeDir default.storeDir acceptStoreDir rfl
  unfold fieldOf at *
  unfold ofMembers
  simp only [hmode, hextension, hpause, hpackage, hstoreDir]

/-- The environment that a file has left makes the settings that the chosen values make. -/
theorem ofEnvironment_eq (h : EnvFile.loadBindings env file = .ok env') :
    ofEnvironment env' overrides.toList
      = ofMembers (chosenMembers env (variablesOf env file) overrides) :=
  ofMembers_congr fun hdefault => fieldOf_chosenMembers hdefault (EnvFile.get?_load h)

/-! ## Configuring -/

theorem configure_eq (env : Environment) (file : List Binding) (overrides : OrderedMap Text Json) :
    configureFrom env file overrides.toList = (EnvFile.loadBindings env file).map fun env' =>
      (env', ofMembers (chosenMembers env (variablesOf env file) overrides)) := by
  unfold configureFrom
  cases h : EnvFile.loadBindings env file with
  | error r => rfl
  | ok env' => exact congrArg (fun s => Except.ok (env', s)) (ofEnvironment_eq h)

theorem exists_configure_iff {overrides : List (Text × Json)} :
    (∃ result, configureFrom env file overrides = .ok result) ↔ Loadable env file := by
  rw [← EnvFile.exists_load_iff]
  unfold configureFrom
  cases EnvFile.loadBindings env file <;> simp [Except.map]

/-! ## Precedence -/

/-- Of the chosen values each field takes its own. -/
theorem ofMembers_chosenMembers_eq_ok_iff {s : Settings} :
    ofMembers (chosenMembers env vars overrides) = .ok s ↔
      acceptBool (chosen env vars overrides .developmentMode) = .ok s.developmentMode ∧
      acceptExtension (chosen env vars overrides .extension) = .ok s.extension ∧
      acceptPause (chosen env vars overrides .pause) = .ok s.pause ∧
      acceptText (chosen env vars overrides .package) = .ok s.package ∧
      acceptStoreDir (chosen env vars overrides .storeDir) = .ok s.storeDir := by
  simp only [ofMembers_eq_ok_iff, fieldOf, checkField, lookup_chosenMembers, checkAt_eq_ok_iff]

/-- The variable of an overridden field has no part in what is chosen. -/
theorem chosenMembers_congr {env₂ : Environment} {vars₂ : List Binding}
    (h : ∀ f, given? overrides f = none →
      found env vars f.variableName = found env₂ vars₂ f.variableName) :
    chosenMembers env vars overrides = chosenMembers env₂ vars₂ overrides := by
  refine List.map_congr_left fun f _ => ?_
  cases hgiven : given? overrides f with
  | some v => simp only [chosen, hgiven]
  | none => rw [chosen_of_not_given hgiven, chosen_of_not_given hgiven, h f hgiven]

theorem configure_eq_ok {result : Checked Settings}
    (h : configureFrom env file overrides.toList = .ok (env', result)) :
    EnvFile.loadBindings env file = .ok env' ∧
      result = ofMembers (chosenMembers env (variablesOf env file) overrides) := by
  rw [configure_eq, map_eq_ok_iff] at h
  obtain ⟨_, hload, he⟩ := h
  cases he
  exact ⟨hload, rfl⟩

theorem configure_eq_error {r : EnvFile.Refusal}
    (h : configureFrom env file overrides.toList = .error r) :
    EnvFile.loadBindings env file = .error r := by
  rw [configure_eq] at h
  cases hload : EnvFile.loadBindings env file with
  | ok env' => simp [hload, Except.map] at h
  | error r' => simpa [hload, Except.map] using h

/-- **Precedence of the layers**: if the variables of the file can be set, the settings are those
that the chosen values make, or are refused as these are; each field takes its own chosen value, and
what the variable of an overridden field says makes no difference. If not, the first variable that
cannot be set tells why. -/
theorem configure_precedence (env : Environment) (file : List Binding)
    (overrides : OrderedMap Text Json) :
    let value := chosen env (variablesOf env file) overrides
    let values := chosenMembers env (variablesOf env file) overrides
    ((∃ env' result, configureFrom env file overrides.toList = .ok (env', result)) ↔
      Loadable env file) ∧
    (∀ env' result, configureFrom env file overrides.toList = .ok (env', result) →
      result = ofMembers values ∧
      ∀ env₂ file₂ env₂' result₂,
        configureFrom env₂ file₂ overrides.toList = .ok (env₂', result₂) →
        (∀ f, given? overrides f = none →
          found env (variablesOf env file) f.variableName
            = found env₂ (variablesOf env₂ file₂) f.variableName) →
        result₂ = result) ∧
    (∀ s, ofMembers values = .ok s ↔
      acceptBool (value .developmentMode) = .ok s.developmentMode ∧
      acceptExtension (value .extension) = .ok s.extension ∧
      acceptPause (value .pause) = .ok s.pause ∧
      acceptText (value .package) = .ok s.package ∧
      acceptStoreDir (value .storeDir) = .ok s.storeDir) ∧
    ∀ r, configureFrom env file overrides.toList = .error r →
      ∃ before name value later, variablesOf env file = before ++ (name, some value) :: later ∧
        (∀ name value, (name, some value) ∈ before →
          env.contains name = true ∨ EnvFile.Settable name value) ∧
        env.contains name = false ∧ EnvFile.setVariable env name value = .error r := by
  intro value values
  refine ⟨?_, fun env' result h => ?_, fun s => ofMembers_chosenMembers_eq_ok_iff, fun r h => ?_⟩
  · rw [← exists_configure_iff, Prod.exists]
  · obtain ⟨-, rfl⟩ := configure_eq_ok h
    refine ⟨rfl, fun env₂ file₂ env₂' result₂ h₂ hfound => ?_⟩
    obtain ⟨-, rfl⟩ := configure_eq_ok h₂
    rw [chosenMembers_congr hfound]
  · have hload := configure_eq_error h
    rw [EnvFile.load_eq] at hload
    exact EnvFile.exists_of_setMissing_error (EnvFile.nodup_variablesOf env file) hload

/-- An environment with an empty variable and one that is no number. -/
def layered : Environment :=
  .ofList [("QUERYBIND_EXTENSION".toList, []), ("QUERYBIND_DEBOUNCE_MS".toList, "never".toList)]

def layeredFile : Text :=
  ("QUERYBIND_EXTENSION=.page\nQUERYBIND_COMPONENT_DEV_MODE=' Yes'\n" ++
    "QUERYBIND_UTILITIES_PACKAGE=helpers\n").toList

def layeredOverrides : OrderedMap Text Json :=
  .ofList [("debounce_ms".toList, .text "50".toList), ("store_dir".toList, .null)]

/-- The settings of all four layers. -/
def layeredSettings : Settings :=
  { default with developmentMode := true, pause := 50, package := "helpers".toList }

/-- The empty variable selects the default and hides the file, and the number is overridden. -/
theorem configure_precedence_layers :
    ∃ env', configure layered layeredFile layeredOverrides.toList
      = .ok (env', .ok layeredSettings) := by
  obtain ⟨hok, hresult, hfields, -⟩ :=
    configure_precedence layered (EnvFile.bindings layeredFile) layeredOverrides
  obtain ⟨env', result, h⟩ := hok.mpr (by
    rw [← EnvFile.exists_load_iff]
    exact ⟨_, rfl⟩)
  obtain ⟨rfl, -⟩ := hresult env' result h
  have hsettings := (hfields layeredSettings).mpr ⟨rfl, rfl, rfl, rfl, rfl⟩
  exact ⟨env', hsettings ▸ h⟩

/-- A file that names a variable that no process can have. -/
def quotedNameFile : Text := "'a=b'=1\nQUERYBIND_UTILITIES_PACKAGE=x\n".toList

/-- It is not the chosen values alone that decide whether there are settings. -/
theorem not_settings_alone_quotedName :
    ¬ ((∃ env' s, configure .empty quotedNameFile [] = .ok (env', .ok s)) ↔
      ∃ s, ofMembers (chosenMembers .empty
        (variablesOf .empty (EnvFile.bindings quotedNameFile)) .empty) = .ok s) := by
  have hrefused : configure .empty quotedNameFile [] = .error .illegalName := rfl
  intro h
  obtain ⟨env', s, hs⟩ := h.mpr ⟨{ default with package := "x".toList }, rfl⟩
  rw [hrefused] at hs
  cases hs

/-! ## Configuring again -/

/-- **Configuring again changes nothing**: the first time leaves the variables that are there as
they are and adds none but those that the file names, and the second time gives the same in the
same environment. -/
theorem configure_again (h : Loadable env file) (overrides : List (Text × Json)) :
    ∃ env' result, configureFrom env file overrides = .ok (env', result) ∧
      (∀ name value, env.get? name = some value → env'.get? name = some value) ∧
      (∀ name ∈ env'.keys, name ∈ env.keys ∨ name ∈ file.map Prod.fst) ∧
      configureFrom env' file overrides = .ok (env', result) := by
  obtain ⟨env', hload⟩ := EnvFile.exists_load_iff.mpr h
  refine ⟨env', ofEnvironment env' overrides, ?_, fun name value hname => ?_, fun name hname => ?_,
    ?_⟩
  · rw [configureFrom, hload]
    rfl
  · exact EnvFile.get?_of_load hload hname
  · exact EnvFile.keys_of_load hload hname
  · rw [configureFrom, EnvFile.load_load hload]
    rfl

/-- A file that refers forward and backward, names a variable twice, and one without a value. -/
def referringFile : Text :=
  "B=$\x7bA\x7dx\nA=1\nC\nB=$\x7bB\x7d$\x7bA\x7d\nQUERYBIND_EXTENSION=$\x7bB\x7d.page\n".toList

/-- What it leaves. -/
def referred : Environment :=
  .ofList [("B".toList, "x1".toList), ("A".toList, "1".toList),
    ("QUERYBIND_EXTENSION".toList, "x1.page".toList)]

def referredSettings : Settings := { default with extension := ".x1.page".toList }

/-- Its variables have other values the second time, which are not used. -/
theorem configure_again_referring :
    Loadable .empty (EnvFile.bindings referringFile) ∧
      configure .empty referringFile [] = .ok (referred, .ok referredSettings) ∧
      (variablesOf referred (EnvFile.bindings referringFile)).lookup "B".toList
        = some (some "x11".toList) ∧
      configure referred referringFile [] = .ok (referred, .ok referredSettings) := by
  have hload : Loadable .empty (EnvFile.bindings referringFile) :=
    EnvFile.exists_load_iff.mp ⟨_, rfl⟩
  have hfirst : configure .empty referringFile [] = .ok (referred, .ok referredSettings) := rfl
  obtain ⟨env', result, hok, -, -, hagain⟩ := configure_again hload []
  obtain ⟨rfl, rfl⟩ := Prod.mk.inj (Except.ok.inj (hok.symm.trans hfirst))
  exact ⟨hload, hfirst, rfl, hagain⟩

end PageQueries.Settings
