import PageQueries.Path
import PageQueries.Settings.Number

/-!
# Settings

What a preprocessor can be told: which pages it manages, how long queries are debounced, where
helpers are imported from and where queries are stored.  Settings are read from JSON values, from
which each field is accepted in several spellings and kept in one.
-/
namespace PageQueries

/-- The settings of a preprocessor (`PreprocessorSettings`). -/
structure Settings where
  developmentMode : Bool
  /-- The ending of managed file names; it begins with a point. -/
  extension : Text
  /-- The pause of debounced queries in milliseconds; it is positive. -/
  pause : Int
  /-- The package that the generated script imports helpers from. -/
  package : Text
  /-- The folder of the stored queries, if they are to outlive the preprocessor. -/
  storeDir : Option Path
  deriving DecidableEq, Repr

namespace Settings

inductive Field where
  | developmentMode
  | extension
  | pause
  | package
  | storeDir
  deriving DecidableEq, Repr

/-- The fields in the order in which they are checked. -/
def Field.order : List Field := [developmentMode, extension, pause, package, storeDir]

def Field.name : Field → Text
  | developmentMode => "component_development_mode".toList
  | extension => "managed_extension".toList
  | pause => "debounce_ms".toList
  | package => "utilities_package".toList
  | storeDir => "store_dir".toList

/-- The settings that hold unless others are given. -/
def default : Settings where
  developmentMode := false
  extension := ".md".toList
  pause := 200
  package := "@evidence-dev/component-utilities".toList
  storeDir := none

def model : Text := "PreprocessorSettings".toList

/-- Accepts an extension: trimmed, not empty, and with a point in front (`validate_extension`). -/
def acceptExtension (v : Json) : Except Fault Text := do
  let t ← acceptText v
  match Text.trim t with
  | [] => .error .extensionEmpty
  | '.' :: t => .ok ('.' :: t)
  | t => .ok ('.' :: t)

/-- Accepts a positive number of milliseconds (`validate_debounce`). -/
def acceptPause (v : Json) : Except Fault Int := do
  let n ← acceptInt v
  if n ≤ 0 then .error .debounceNotPositive else .ok n

/-- Accepts a path, or none. -/
def acceptStoreDir : Json → Except Fault (Option Path)
  | .null => .ok none
  | .text t => .ok (some (.ofText t))
  | _ => .error .pathExpected

/-- Reads the settings from the members of an object.  Members that are no fields are ignored, and
a missing field keeps its default. -/
def ofMembers (members : List (Text × Json)) : Checked Settings :=
  let field {α : Type} (f : Field) (a : α) (accept : Json → Except Fault α) : Checked α :=
    checkField members f.name (some a) (checkAt [f.name] accept)
  Checked.ap
    (Checked.ap
      (Checked.ap
        (Checked.ap
          ((field .developmentMode default.developmentMode acceptBool).map
            fun developmentMode extension pause package storeDir =>
              (⟨developmentMode, extension, pause, package, storeDir⟩ : Settings))
          (field .extension default.extension acceptExtension))
        (field .pause default.pause acceptPause))
      (field .package default.package acceptText))
    (field .storeDir default.storeDir acceptStoreDir)

def put (s : Settings) (f : Field) (v : Json) : Except Fault Settings :=
  match f with
  | .developmentMode => (acceptBool v).map fun b => { s with developmentMode := b }
  | .extension => (acceptExtension v).map fun t => { s with extension := t }
  | .pause => (acceptPause v).map fun n => { s with pause := n }
  | .package => (acceptText v).map fun t => { s with package := t }
  | .storeDir => (acceptStoreDir v).map fun p => { s with storeDir := p }

/-- Assigns a value to the field of the given name.  A value that is not accepted changes
nothing. -/
def assign (s : Settings) (name : Text) (v : Json) : Except AssignmentRefusal Settings :=
  if isPrivateName name then .ok s
  else if bookkeepingNames.contains name then .error (.derived model name)
  else
    match Field.order.find? (·.name = name) with
    | some f => (s.put f v).mapError fun fault => .invalid [⟨[name], fault, v⟩]
    | none => .error (.invalid [⟨[name], .fieldUnknown name, v⟩])

/-- Whether a page is managed: whether its name has the managed extension (`handles`). -/
def manages (s : Settings) (filename : Text) : Bool := Text.isEnding s.extension filename

def get (s : Settings) : Field → Json
  | .developmentMode => .bool s.developmentMode
  | .extension => .text s.extension
  | .pause => .int s.pause
  | .package => .text s.package
  | .storeDir => (s.storeDir.map fun p => Json.text p.text).getD .null

def toMembers (s : Settings) : List (Text × Json) := Field.order.map fun f => (f.name, s.get f)

end Settings

end PageQueries
