import PageQueries.Proofs.Validation
import PageQueries.Record

/-!
# Records and the objects that describe them

An extractor may give a record, or an object that is read as one. `Describes`
says what such an object must hold, field by field: a name and a text, and, if
they are there at all, a truth value and an object.

Results:
* `ofJson_eq_ok_iff`: a value is read as a record exactly if it is an object that
  describes the record.
* `ofJson_toJson`: every record is described by an object.
-/
namespace PageQueries.Record

/-- The members of an object that describes a record. -/
structure Describes (members : List (Text × Json)) (r : Record) : Prop where
  id : members.lookup "id".toList = some (.text r.id)
  text : members.lookup "compiled_query_string".toList = some (.text r.text)
  /-- Numbers and words may stand for truth values. -/
  inline : (∃ v, members.lookup "inline".toList = some v ∧ acceptBool v = .ok r.inline) ∨
    members.lookup "inline".toList = none ∧ r.inline = false
  metadata : members.lookup "metadata".toList = some (.object r.metadata) ∨
    members.lookup "metadata".toList = none ∧ r.metadata = []

variable {members : List (Text × Json)} {v : Json} {r : Record}

theorem ofMembers_eq_ok_iff : ofMembers members = .ok r ↔ Describes members r := by
  unfold ofMembers
  simp only [Checked.ap_eq_ok_iff, map_eq_ok_iff, checkField_eq_ok_iff, checkAt_eq_ok_iff,
    acceptText_eq_ok_iff, acceptObject_eq_ok_iff, exists_eq_right, reduceCtorEq, and_false,
    or_false, Option.some.injEq]
  constructor
  · rintro ⟨_, inline, ⟨_, text, ⟨_, id, ⟨metadata, hmetadata, rfl⟩, hid, rfl⟩, htext, rfl⟩,
      hinline, rfl⟩
    exact ⟨hid, htext, hinline.imp_right (And.imp_right Eq.symm),
      hmetadata.imp_right (And.imp_right Eq.symm)⟩
  · intro h
    exact ⟨_, _, ⟨_, _, ⟨_, _, ⟨_, h.metadata.imp_right (And.imp_right Eq.symm), rfl⟩, h.id, rfl⟩,
      h.text, rfl⟩, h.inline.imp_right (And.imp_right Eq.symm), rfl⟩

/-- A value is read as a record exactly if it is an object that describes the record. -/
theorem ofJson_eq_ok_iff :
    ofJson v = .ok r ↔ ∃ members, v = .object members ∧ Describes members r := by
  cases v with
  | object members => simp [ofJson, ofMembers_eq_ok_iff]
  | _ => simp [ofJson]

/-- The object that describes a record. -/
def toJson (r : Record) : Json :=
  .object [("id".toList, .text r.id), ("compiled_query_string".toList, .text r.text),
    ("inline".toList, .bool r.inline), ("metadata".toList, .object r.metadata)]

theorem ofJson_toJson (r : Record) : ofJson r.toJson = .ok r :=
  ofJson_eq_ok_iff.mpr ⟨_, rfl, rfl, rfl, .inl ⟨_, rfl, rfl⟩, .inl rfl⟩

end PageQueries.Record
