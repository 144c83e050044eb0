import PageQueries.Validation

/-!
# Query records

A query of a page: its name, its text, whether it is rendered inline, and what else its extractor
knows about it.
-/
namespace PageQueries

/-- A query as an extractor finds it (`QueryRecord`). -/
structure Record where
  id : Text
  text : Text
  /-- An inline query is not shown as a block. -/
  inline : Bool
  metadata : List (Text × Json)

namespace Record

def model : Text := "QueryRecord".toList

/-- Reads the fields of a record.  The name and the text are required. -/
def ofMembers (members : List (Text × Json)) : Checked Record :=
  let field {α : Type} (name : String) (default : Option α) (accept : Json → Except Fault α) :=
    checkField members name.toList default (checkAt [name.toList] accept)
  Checked.ap
    (Checked.ap
      (Checked.ap
        ((field "metadata" (some []) acceptObject).map fun metadata id text inline =>
          ⟨id, text, inline, metadata⟩)
        (field "id" none acceptText))
      (field "compiled_query_string" none acceptText))
    (field "inline" (some false) acceptBool)

/-- Reads a record from an object; members that are no fields are ignored. -/
def ofJson : Json → Checked Record
  | .object members => ofMembers members
  | v => .error [⟨[], .modelExpected model, v⟩]

end Record

/-- Reads the text that a phase puts in place of a page or a script from an object with the one
field `code` (`ProcessedCode`). -/
def replacementOfJson : Json → Checked Text
  | .object members =>
    checkField members "code".toList none (checkAt ["code".toList] acceptText)
  | v => .error [⟨[], .modelExpected "ProcessedCode".toList, v⟩]

end PageQueries
