import PageQueries.Proofs.Except
import PageQueries.Proofs.OrderedMap
import PageQueries.Settings.EnvFile

/-!
# What a file does to an environment

A file is a list of bindings here, whatever reader has found them in its text.
It has variables (`variablesOf`), each name once, with the references in their
values replaced. Those that have a value and are not in the environment
yet are set; nothing else changes (`get?_load`). Loading ends early only at a
variable that has to be set and that no process can have (`Settable`).

The values depend on the environment, as references are looked up there first.
The names do not, nor does which of them have a value (`shape_expand`). So a
file that was loaded finds all its variables set, and whatever their values
would be now, none of them is used (`load_load`).
-/
namespace PageQueries.EnvFile

/-- The variables of a file, in order and with the references in their values replaced; none if the
environment keeps files from being loaded. -/
def variablesOf (env : Environment) (file : List Binding) : List Binding :=
  if isDisabled env then [] else expand env file

/-- A process can have a variable of this name and value. -/
structure Settable (name value : Text) : Prop where
  name_nul : '\x00' ∉ name
  value_nul : '\x00' ∉ value
  name_equals : '=' ∉ name

/-- Every variable that is to be set can be. -/
def Loadable (env : Environment) (file : List Binding) : Prop :=
  ∀ name value, (name, some value) ∈ variablesOf env file →
    env.contains name = true ∨ Settable name value

variable {env env' : Environment} {name value : Text} {vars file : List Binding}

theorem setVariable_eq_ok_iff :
    setVariable env name value = .ok env' ↔ Settable name value ∧ env' = env.insert name value := by
  unfold setVariable
  simp only [List.contains_eq_mem, Bool.or_eq_true, decide_eq_true_eq]
  split
  · rename_i hnul
    simp only [reduceCtorEq, false_iff, not_and]
    intro h
    exact absurd hnul (not_or.mpr ⟨h.name_nul, h.value_nul⟩)
  split
  · rename_i hequals
    simp only [reduceCtorEq, false_iff, not_and]
    intro h
    exact absurd hequals h.name_equals
  · rename_i hnul hequals
    simp only [Except.ok.injEq]
    obtain ⟨hname, hvalue⟩ := not_or.mp hnul
    exact ⟨fun h => ⟨⟨hname, hvalue, hequals⟩, h.symm⟩, fun h => h.2.symm⟩

/-- Whether a variable is refused depends on the variable alone. -/
theorem setVariable_error {r : Refusal} (h : setVariable env name value = .error r) :
    setVariable env' name value = .error r := by
  unfold setVariable at h
  split at h
  · rename_i hnul
    rw [setVariable, if_pos hnul]
    exact h
  split at h
  · rename_i hnul hequals
    rw [setVariable, if_neg hnul, if_pos hequals]
    exact h
  · cases h

/-! ## Setting what is missing -/

/-- Sets a variable if it has a value and is missing. -/
def setIfMissing (env : Environment) (b : Binding) : Except Refusal Environment :=
  match b.2 with
  | some value => if env.contains b.1 then .ok env else setVariable env b.1 value
  | none => .ok env

theorem setMissing_cons (env : Environment) (b : Binding) (vars : List Binding) :
    setMissing env (b :: vars) = setIfMissing env b >>= (setMissing · vars) := by
  obtain ⟨name, value⟩ := b
  cases value with
  | none => rfl
  | some value =>
    rw [setMissing]
    unfold setIfMissing
    dsimp only
    split <;> rfl

theorem setIfMissing_of_contains {b : Binding} (h : env.contains b.1 = true) :
    setIfMissing env b = .ok env := by
  unfold setIfMissing
  split
  · rw [if_pos h]
  · rfl

theorem get?_setIfMissing {b : Binding} (h : setIfMissing env b = .ok env') (name : Text) :
    env'.get? name = (env.get? name).or (if name = b.1 then b.2 else none) := by
  unfold setIfMissing at h
  split at h
  · rename_i value hvalue
    rw [hvalue]
    split at h
    · rename_i hc
      cases h
      obtain ⟨old, hold⟩ := Option.isSome_iff_exists.mp hc
      by_cases hname : name = b.1 <;> simp [hname, hold]
    · rename_i hc
      obtain ⟨-, rfl⟩ := setVariable_eq_ok_iff.mp h
      have hold : env.get? b.1 = none := by simpa [OrderedMap.contains] using hc
      rw [OrderedMap.get?_insert]
      by_cases hname : name = b.1 <;> simp [hname, hold]
  · rename_i hvalue
    cases h
    simp [hvalue]

theorem contains_setIfMissing {b : Binding} (h : setIfMissing env b = .ok env')
    (hname : name ≠ b.1) : env'.contains name = env.contains name := by
  rw [OrderedMap.contains, OrderedMap.contains, get?_setIfMissing h, if_neg hname, Option.or_none]

theorem setIfMissing_eq_error_iff {b : Binding} {r : Refusal} :
    setIfMissing env b = .error r ↔
      ∃ value, b.2 = some value ∧ env.contains b.1 = false ∧
        setVariable env b.1 value = .error r := by
  unfold setIfMissing
  split
  · rename_i value hvalue
    cases hc : env.contains b.1 <;> simp [hvalue]
  · rename_i hvalue
    simp [hvalue]

theorem exists_setIfMissing_iff {b : Binding} :
    (∃ env', setIfMissing env b = .ok env') ↔
      ∀ value, b.2 = some value → env.contains b.1 = true ∨ Settable b.1 value := by
  unfold setIfMissing
  split
  · rename_i value hvalue
    cases hc : env.contains b.1 <;> simp [hvalue, setVariable_eq_ok_iff]
  · rename_i hvalue
    simp [hvalue]

/-- Each variable keeps its value, or else takes the one of the file. -/
theorem get?_setMissing (hn : (vars.map Prod.fst).Nodup) (h : setMissing env vars = .ok env')
    (name : Text) : env'.get? name = (env.get? name).or (vars.lookup name).join := by
  induction vars generalizing env with
  | nil =>
    cases h
    simp
  | cons b vars ih =>
    obtain ⟨hnew, hrest⟩ := List.nodup_cons.mp hn
    rw [setMissing_cons] at h
    obtain ⟨env₁, hfirst, h⟩ := bind_eq_ok_iff.mp h
    rw [ih hrest h, get?_setIfMissing hfirst, Pairs.lookup_cons_eq_ite, Option.or_assoc]
    by_cases hname : name = b.1
    · simp [hname, Pairs.lookup_of_notMem hnew]
    · simp [hname]

/-- What is missing can be set if and only if each of it can. -/
theorem exists_setMissing_iff (hn : (vars.map Prod.fst).Nodup) :
    (∃ env', setMissing env vars = .ok env') ↔
      ∀ name value, (name, some value) ∈ vars → env.contains name = true ∨ Settable name value := by
  induction vars generalizing env with
  | nil => simp [setMissing]
  | cons b vars ih =>
    obtain ⟨hnew, hrest⟩ := List.nodup_cons.mp hn
    -- the names behind the first are other names, so setting it makes no difference to them
    have hothers : ∀ {env₁}, setIfMissing env b = .ok env₁ → ∀ name value,
        (name, some value) ∈ vars → env₁.contains name = env.contains name := by
      intro env₁ hfirst name value hmem
      exact contains_setIfMissing hfirst fun e => hnew (e ▸ List.mem_map_of_mem hmem)
    rw [setMissing_cons]
    constructor
    · intro hset name value hmem
      obtain ⟨env', hset⟩ := hset
      obtain ⟨env₁, hfirst, hlater⟩ := bind_eq_ok_iff.mp hset
      rcases List.mem_cons.mp hmem with rfl | hmem
      · exact exists_setIfMissing_iff.mp ⟨env₁, hfirst⟩ value rfl
      · rw [← hothers hfirst name value hmem]
        exact (ih hrest).mp ⟨env', hlater⟩ name value hmem
    · intro h
      obtain ⟨env₁, hfirst⟩ := exists_setIfMissing_iff.mpr fun value hvalue =>
        h b.1 value (hvalue ▸ List.mem_cons_self)
      obtain ⟨env', hlater⟩ := (@ih env₁ hrest).mpr fun name value hmem => by
        rw [hothers hfirst name value hmem]
        exact h name value (List.mem_cons_of_mem _ hmem)
      exact ⟨env', bind_eq_ok_iff.mpr ⟨env₁, hfirst, hlater⟩⟩

/-- Where nothing is missing, nothing is set. -/
theorem setMissing_of_contains
    (h : ∀ name value, (name, some value) ∈ vars → env.contains name = true) :
    setMissing env vars = .ok env := by
  induction vars with
  | nil => rfl
  | cons b vars ih =>
    have hfirst : setIfMissing env b = .ok env := by
      cases hvalue : b.2 with
      | none => rw [setIfMissing, hvalue]
      | some value =>
        exact setIfMissing_of_contains (h b.1 value (hvalue ▸ List.mem_cons_self))
    rw [setMissing_cons, hfirst]
    exact ih fun name value hmem => h name value (List.mem_cons_of_mem _ hmem)

/-- A refusal is that of the first variable that is to be set and cannot be. -/
theorem exists_of_setMissing_error {r : Refusal} (hn : (vars.map Prod.fst).Nodup)
    (h : setMissing env vars = .error r) :
    ∃ before name value later, vars = before ++ (name, some value) :: later ∧
      (∀ name value, (name, some value) ∈ before →
        env.contains name = true ∨ Settable name value) ∧
      env.contains name = false ∧ setVariable env name value = .error r := by
  induction vars generalizing env with
  | nil => cases h
  | cons b vars ih =>
    obtain ⟨hnew, hrest⟩ := List.nodup_cons.mp hn
    rw [setMissing_cons] at h
    rcases bind_eq_error_iff.mp h with hfirst | ⟨env₁, hfirst, hlater⟩
    · obtain ⟨value, hvalue, hc, hr⟩ := setIfMissing_eq_error_iff.mp hfirst
      refine ⟨[], b.1, value, vars, ?_, fun _ _ hmem => absurd hmem List.not_mem_nil, hc, hr⟩
      rw [← hvalue, List.nil_append]
    · obtain ⟨before, name, value, later, rfl, hbefore, hc, hr⟩ := ih hrest hlater
      have hothers : ∀ b' ∈ before ++ (name, some value) :: later,
          env₁.contains b'.1 = env.contains b'.1 := fun b' hmem =>
        contains_setIfMissing hfirst fun e => hnew (e ▸ List.mem_map_of_mem hmem)
      refine ⟨b :: before, name, value, later, rfl, fun name' value' hmem => ?_, ?_,
        setVariable_error hr⟩
      · rcases List.mem_cons.mp hmem with rfl | hmem
        · exact exists_setIfMissing_iff.mp ⟨env₁, hfirst⟩ value' rfl
        · rw [← hothers (name', some value') (List.mem_append_left _ hmem)]
          exact hbefore name' value' hmem
      · rw [← hothers (name, some value) (by simp)]
        exact hc

/-! ## The variables of a file -/

/-- The names of variables, each with whether it has a value. -/
def shape (vars : List Binding) : List (Text × Bool) := vars.map fun b => (b.1, b.2.isSome)

theorem shape_put (name : Text) (value : Option Text) (vars : List Binding) :
    shape (Pairs.put name value vars) = Pairs.put name value.isSome (shape vars) := by
  unfold shape
  induction vars with
  | nil => rfl
  | cons b vars ih =>
    by_cases h : b.1 = name <;> simp [Pairs.put, h, ih]

/-- The names that a file sets, and which of them have values, are the same in every environment. -/
theorem shape_expand (env : Environment) (bs : List Binding) :
    shape (expand env bs) = Pairs.collapse (shape bs) := by
  suffices go : ∀ set : List Binding, shape (bs.foldl (fun set b =>
      Pairs.put b.1 (b.2.map (expandFrom (resolve env set) 0)) set) set)
        = (shape bs).foldl (fun m p => Pairs.put p.1 p.2 m) (shape set) from go []
  induction bs with
  | nil => exact fun set => rfl
  | cons b bs ih =>
    intro set
    rw [List.foldl_cons, ih, shape_put, Option.isSome_map]
    rfl

theorem map_fst_shape (vars : List Binding) : (shape vars).map Prod.fst = vars.map Prod.fst := by
  simp [shape, Function.comp_def]

theorem mem_shape_of_mem (h : (name, some value) ∈ vars) : (name, true) ∈ shape vars :=
  List.mem_map_of_mem (f := fun b : Binding => (b.1, b.2.isSome)) h

theorem exists_of_mem_shape (h : (name, true) ∈ shape vars) :
    ∃ value, (name, some value) ∈ vars := by
  obtain ⟨⟨n, v⟩, hmem, he⟩ := List.mem_map.mp h
  obtain ⟨rfl, hv⟩ := Prod.mk.inj he
  obtain ⟨value, rfl⟩ := Option.isSome_iff_exists.mp hv
  exact ⟨value, hmem⟩

theorem nodup_variablesOf (env : Environment) (file : List Binding) :
    ((variablesOf env file).map Prod.fst).Nodup := by
  unfold variablesOf
  split
  · exact List.nodup_nil
  · rw [← map_fst_shape, shape_expand]
    exact Pairs.nodup_collapse _

/-- A file whose variables are read now has them in every environment in which it is read. -/
theorem shape_variablesOf (h : isDisabled env = false) :
    shape (variablesOf env file) = Pairs.collapse (shape file) := by
  unfold variablesOf
  rw [h]
  exact shape_expand env _

theorem enabled_of_mem {b : Binding} (h : b ∈ variablesOf env file) :
    isDisabled env = false := by
  unfold variablesOf at h
  split at h
  · cases h
  · rename_i hdisabled
    simpa using hdisabled

/-- A file sets no variables but those that it names. -/
theorem name_of_mem_variablesOf (h : (name, some value) ∈ variablesOf env file) :
    name ∈ file.map Prod.fst := by
  have hshape := mem_shape_of_mem h
  rw [shape_variablesOf (enabled_of_mem h)] at hshape
  rw [← map_fst_shape]
  exact List.mem_map_of_mem (Pairs.mem_collapse hshape)

/-! ## Loading -/

theorem load_eq (env : Environment) (file : List Binding) :
    loadBindings env file = setMissing env (variablesOf env file) := by
  unfold loadBindings variablesOf
  split <;> rfl

theorem exists_load_iff : (∃ env', loadBindings env file = .ok env') ↔ Loadable env file := by
  rw [load_eq]
  exact exists_setMissing_iff (nodup_variablesOf env file)

/-- Each variable keeps its value, or else takes the one of the file. -/
theorem get?_load (h : loadBindings env file = .ok env') (name : Text) :
    env'.get? name = (env.get? name).or ((variablesOf env file).lookup name).join :=
  get?_setMissing (nodup_variablesOf env file) (load_eq env file ▸ h) name

theorem get?_of_load (h : loadBindings env file = .ok env') (hname : env.get? name = some value) :
    env'.get? name = some value := by
  rw [get?_load h, hname, Option.some_or]

/-- A variable that is there after loading was there before or is named in the file. -/
theorem keys_of_load (h : loadBindings env file = .ok env') (hname : name ∈ env'.keys) :
    name ∈ env.keys ∨ name ∈ file.map Prod.fst := by
  rw [← OrderedMap.isSome_get?_iff, get?_load h, Option.isSome_or, Bool.or_eq_true] at hname
  refine hname.imp (OrderedMap.isSome_get?_iff env name).mp fun hfile => ?_
  obtain ⟨value, hvalue⟩ := Option.isSome_iff_exists.mp hfile
  have hlookup := Option.join_eq_some_iff.mp hvalue
  exact name_of_mem_variablesOf
    ((Pairs.lookup_eq_some_iff_mem (nodup_variablesOf env file) name _).mp hlookup)

/-- A variable with a value is there once its file has been loaded. -/
theorem contains_of_load (h : loadBindings env file = .ok env')
    (hmem : (name, some value) ∈ variablesOf env file) : env'.contains name = true := by
  have hlookup : (variablesOf env file).lookup name = some (some value) :=
    (Pairs.lookup_eq_some_iff_mem (nodup_variablesOf env file) name _).mpr hmem
  rw [OrderedMap.contains, get?_load h, hlookup]
  cases env.get? name <;> rfl

theorem load_of_disabled (h : isDisabled env = true) : loadBindings env file = .ok env := by
  rw [loadBindings, if_pos h]

/-- A file that has been loaded changes nothing when it is loaded again. -/
theorem load_load (h : loadBindings env file = .ok env') : loadBindings env' file = .ok env' := by
  cases hthen : isDisabled env with
  | true =>
    rw [load_of_disabled hthen] at h
    cases h
    exact load_of_disabled hthen
  | false =>
    rw [load_eq]
    refine setMissing_of_contains fun name value hmem => ?_
    have hshape := mem_shape_of_mem hmem
    rw [shape_variablesOf (enabled_of_mem hmem), ← shape_variablesOf hthen] at hshape
    obtain ⟨old, hold⟩ := exists_of_mem_shape hshape
    exact contains_of_load h hold

end PageQueries.EnvFile
