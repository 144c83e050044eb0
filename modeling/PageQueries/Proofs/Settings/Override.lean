import PageQueries.Proofs.Json.Distinct
import PageQueries.Proofs.Validation
import PageQueries.Settings.Environment

/-!
# An override changes one setting

Settings are made of five fields that are checked one by one, so they are
accepted if and only if each field is (`ofMembers_eq_ok_iff`). An override puts
a value under the name of one field. The other fields are read as before, and
what was wrong with the overridden field no longer counts.

`ofEnvironment_storeDir`: where an environment makes settings, an override of
the folder of stored queries makes the same settings with that folder.
-/
namespace PageQueries

namespace Settings

variable {members : List (Text × Json)} {s : Settings}

/-- What the members say about a field that is missing at worst. -/
def fieldOf {α : Type} (members : List (Text × Json)) (f : Field) (a : α)
    (accept : Json → Except Fault α) : Checked α :=
  checkField members f.name (some a) (checkAt [f.name] accept)

theorem ofMembers_eq_ok_iff :
    ofMembers members = .ok s ↔
      fieldOf members .developmentMode default.developmentMode acceptBool = .ok s.developmentMode ∧
      fieldOf members .extension default.extension acceptExtension = .ok s.extension ∧
      fieldOf members .pause default.pause acceptPause = .ok s.pause ∧
      fieldOf members .package default.package acceptText = .ok s.package ∧
      fieldOf members .storeDir default.storeDir acceptStoreDir = .ok s.storeDir := by
  unfold ofMembers
  constructor
  · intro h
    obtain ⟨_, storeDir, h₄, hstoreDir, rfl⟩ := Checked.ap_eq_ok_iff.mp h
    obtain ⟨_, package, h₃, hpackage, rfl⟩ := Checked.ap_eq_ok_iff.mp h₄
    obtain ⟨_, pause, h₂, hpause, rfl⟩ := Checked.ap_eq_ok_iff.mp h₃
    obtain ⟨_, extension, h₁, hextension, rfl⟩ := Checked.ap_eq_ok_iff.mp h₂
    obtain ⟨developmentMode, hmode, rfl⟩ := map_eq_ok_iff.mp h₁
    exact ⟨hmode, hextension, hpause, hpackage, hstoreDir⟩
  · rintro ⟨hmode, hextension, hpause, hpackage, hstoreDir⟩
    unfold fieldOf at *
    simp only [hmode, hextension, hpause, hpackage, hstoreDir, Except.map, Checked.ap]

/-! ## One field changed -/

variable {v : Json} {name : Text}

theorem fieldOf_put_of_ne {α : Type} {f : Field} (h : f.name ≠ name) (a : α)
    (accept : Json → Except Fault α) :
    fieldOf (Pairs.put name v members) f a accept = fieldOf members f a accept := by
  unfold fieldOf checkField
  rw [Pairs.lookup_put, if_neg h]
  cases members.lookup f.name <;> rfl

theorem fieldOf_put_self {α : Type} (f : Field) (a : α) (accept : Json → Except Fault α) :
    fieldOf (Pairs.put f.name v members) f a accept = checkAt [f.name] accept v := by
  unfold fieldOf checkField
  rw [Pairs.lookup_put, if_pos rfl]

theorem name_ne_storeDir {f : Field} (h : f ≠ .storeDir) : f.name ≠ Field.storeDir.name := by
  cases f with
  | storeDir => exact absurd rfl h
  | _ => decide

/-- An override of the folder of stored queries changes this setting and no other. -/
theorem ofEnvironment_storeDir {env : Environment} (h : ofEnvironment env [] = .ok s) (t : Text) :
    ofEnvironment env [(Field.storeDir.name, .text t)]
      = .ok { s with storeDir := some (.ofText t) } := by
  obtain ⟨hmode, hextension, hpause, hpackage, -⟩ := ofMembers_eq_ok_iff.mp h
  show ofMembers (Pairs.put Field.storeDir.name (.text t) (variableValues env)) = _
  refine ofMembers_eq_ok_iff.mpr ⟨?_, ?_, ?_, ?_, fieldOf_put_self .storeDir _ _⟩
  · exact (fieldOf_put_of_ne (name_ne_storeDir (f := .developmentMode) (by decide)) _ _).trans hmode
  · exact (fieldOf_put_of_ne (name_ne_storeDir (f := .extension) (by decide)) _ _).trans hextension
  · exact (fieldOf_put_of_ne (name_ne_storeDir (f := .pause) (by decide)) _ _).trans hpause
  · exact (fieldOf_put_of_ne (name_ne_storeDir (f := .package) (by decide)) _ _).trans hpackage

end Settings

end PageQueries
