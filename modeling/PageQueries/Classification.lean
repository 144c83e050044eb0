import PageQueries.Dependency
import PageQueries.Identifier
import PageQueries.Validation
import PageQueries.Warning

/-!
# Classification

The names of a page's queries are divided into those that the script binds and those that it
rejects, and the bound ones by what their texts depend on.  `classify` makes a classification from
the queries; one may also be read from JSON and changed field by field, so its lists need not agree
with each other, but no list holds a name twice.
-/
namespace PageQueries

/-- The queries of a page: texts by name, in order. -/
abbrev Queries := OrderedMap Text Text

/-- The items of a list, each where it occurs first (`unique_in_order`). -/
def uniqueAfter {α : Type} [DecidableEq α] (seen : List α) : List α → List α
  | [] => []
  | a :: as => if a ∈ seen then uniqueAfter seen as else a :: uniqueAfter (a :: seen) as

@[inherit_doc uniqueAfter]
def unique {α : Type} [DecidableEq α] (as : List α) : List α := uniqueAfter [] as

/-- The queries of a page, divided by name (`ClassifiedQueries`). -/
structure Classification where
  queries : Queries
  valid : List Text
  reactive : List Text
  static : List Text
  input : List Text
  rejected : List Text
  /-- What else is known about the page. -/
  metadata : List (Text × Json) := []

namespace Classification

/-- Divides the names of queries (`classify_queries`). -/
def classify (queries : Queries) : Classification :=
  let valid := queries.keys.filter Identifier.isAccepted
  let rejected := queries.keys.filter (!Identifier.isAccepted ·)
  let textOf (id : Text) : Text := (queries.get? id).getD []
  let reactive := valid.filter fun id => Dependency.isReactive (textOf id)
  ⟨queries, valid, reactive, valid.filter (!reactive.contains ·),
    reactive.filter fun id => Dependency.readsInputs (textOf id), rejected, []⟩

/-- A warning for each name that is rejected only because it is in use. -/
def reservedWarnings {ν : Type} (queries : OrderedMap Text ν) : List Warning :=
  (queries.keys.filter fun id => Identifier.isIdentifier id && Identifier.isReserved id).map
    .reservedName

/-- Whether the script binds no query (`is_empty`). -/
def isEmpty (c : Classification) : Bool := c.valid.isEmpty

/-- The classes whose lists hold a name (`classes_for`). -/
def classesOf (c : Classification) (id : Text) : List Dependency :=
  (if c.static.contains id then [.static] else [])
    ++ (if c.reactive.contains id then [.reactive] else [])
    ++ (if c.input.contains id then [.inputReactive] else [])

/-- The five lists of a classification. -/
inductive ListField where
  | valid
  | reactive
  | static
  | input
  | rejected
  deriving DecidableEq, Repr

def ListField.order : List ListField := [valid, reactive, static, input, rejected]

/-- The name of a list in reports and in JSON. -/
def ListField.name : ListField → Text
  | valid => "valid_ids".toList
  | reactive => "reactive_ids".toList
  | static => "static_ids".toList
  | input => "input_ids".toList
  | rejected => "rejected_ids".toList

def get (c : Classification) : ListField → List Text
  | .valid => c.valid
  | .reactive => c.reactive
  | .static => c.static
  | .input => c.input
  | .rejected => c.rejected

def set (c : Classification) (f : ListField) (ids : List Text) : Classification :=
  match f with
  | .valid => { c with valid := ids }
  | .reactive => { c with reactive := ids }
  | .static => { c with static := ids }
  | .input => { c with input := ids }
  | .rejected => { c with rejected := ids }

/-- Accepts a list of names and drops repetitions (`validate_unique`). -/
def checkIds (f : ListField) (v : Json) : Checked (List Text) :=
  (checkTexts [f.name] v).map unique

def model : Text := "ClassifiedQueries".toList

def queriesName : Text := "queries".toList

def metadataName : Text := "metadata".toList

/-- Reads a classification from the members of an object.  A missing list is empty. -/
def ofMembers (members : List (Text × Json)) : Checked Classification :=
  let metadata := checkField members metadataName (some []) (checkAt [metadataName] acceptObject)
  let queries := checkField members queriesName (some .empty) (checkTextMap [queriesName])
  let ids (f : ListField) := checkField members f.name (some []) (checkIds f)
  let fields : Checked (Queries → List Text → List Text → List Text → List Text → List Text →
      Classification) :=
    metadata.map fun metadata queries valid reactive static input rejected =>
      ⟨queries, valid, reactive, static, input, rejected, metadata⟩
  let fields := Checked.ap (Checked.ap fields queries) (ids .valid)
  Checked.ap (Checked.ap (Checked.ap (Checked.ap fields (ids .reactive)) (ids .static))
    (ids .input)) (ids .rejected)

/-- Whether an attribute follows from others and so is not assigned. -/
def isDerived (name : Text) : Bool := name = "is_empty".toList || bookkeepingNames.contains name

/-- Assigns a value to the field of the given name. -/
def assign (c : Classification) (name : Text) (v : Json) :
    Except AssignmentRefusal Classification :=
  if isPrivateName name then .ok c
  else if isDerived name then .error (.derived model name)
  else if name = metadataName then
    (((checkAt [name] acceptObject v).map fun metadata => { c with metadata }).mapError .invalid)
  else if name = queriesName then
    (((checkTextMap [name] v).map fun queries => { c with queries }).mapError .invalid)
  else
    match ListField.order.find? (·.name = name) with
    | some f => (((checkIds f v).map (c.set f)).mapError .invalid)
    | none => .error (.invalid [⟨[name], .fieldUnknown name, v⟩])

/-- The report on a classification: the queries and the five lists.  It leaves the metadata out. -/
def toJson (c : Classification) : Json :=
  .object ((queriesName, .object (c.queries.toList.map fun p => (p.1, .text p.2)))
    :: ListField.order.map fun f => (f.name, .array ((c.get f).map .text)))

end Classification

end PageQueries
