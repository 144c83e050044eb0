import PageQueries.Settings.Basic
import PageQueries.Settings.EnvFile
import PageQueries.Text.LowerCase

/-!
# Settings from the environment

Each setting has a variable.  An override that is given and not null comes first, then the
variable, then the default; a variable that is empty counts as missing, except that it turns the
development mode off.
-/
namespace PageQueries.Settings

/-- The beginning of the names of all variables. -/
def variableStart : Text := "QUERYBIND_".toList

/-- The variable of a field. -/
def Field.variableName : Field → Text
  | developmentMode => variableStart ++ "COMPONENT_DEV_MODE".toList
  | extension => variableStart ++ "EXTENSION".toList
  | pause => variableStart ++ "DEBOUNCE_MS".toList
  | package => variableStart ++ "UTILITIES_PACKAGE".toList
  | storeDir => variableStart ++ "STORE_DIR".toList

/-- The words that turn the development mode on. -/
def trueModes : List Text := ["1", "true", "yes", "on"].map String.toList

/-- What the value of a variable says about its field. -/
def Field.ofVariable (f : Field) (value : Text) : Option Json :=
  match f with
  | developmentMode => some (.bool (trueModes.contains (Text.lower (Text.trim value))))
  | _ => if value.isEmpty then none else some (.text value)

/-- The values that the environment gives to fields. -/
def variableValues (env : Environment) : List (Text × Json) :=
  Field.order.filterMap fun f =>
    ((env.get? f.variableName).bind f.ofVariable).map (f.name, ·)

def isNull : Json → Bool
  | .null => true
  | _ => false

/-- Values with the overrides that are not null in place of the values of the same fields. -/
def override (values overrides : List (Text × Json)) : List (Text × Json) :=
  (overrides.filter (!isNull ·.2)).foldl (fun vs p => Pairs.put p.1 p.2 vs) values

/-- The settings that an environment and overrides make. -/
def ofEnvironment (env : Environment) (overrides : List (Text × Json)) : Checked Settings :=
  ofMembers (override (variableValues env) overrides)

/-- Loads the bindings of an environment file: the environment after it, and the settings that it
makes with overrides. -/
def configureFrom (env : Environment) (file : List EnvFile.Binding)
    (overrides : List (Text × Json)) : Except EnvFile.Refusal (Environment × Checked Settings) :=
  (EnvFile.loadBindings env file).map fun env => (env, ofEnvironment env overrides)

/-- Loads an environment file, and makes settings with overrides (`from_env`). -/
def configure (env : Environment) (content : Text) (overrides : List (Text × Json)) :
    Except EnvFile.Refusal (Environment × Checked Settings) :=
  configureFrom env (EnvFile.bindings content) overrides

end PageQueries.Settings
