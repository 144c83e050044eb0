import PageQueries.Json.Inspect
import PageQueries.Text.Utf8

/-!
# Validation

Records, classifications and settings are read from JSON values that may have any shape.  A
violation tells where a value was not accepted, why, and what the value was.  All fields are
checked, so that a report holds every violation, in the order of the fields.
-/
namespace PageQueries

/-- Why a value is not accepted. -/
inductive Fault where
  | missing
  | textExpected
  | objectExpected
  /-- A value that is to be read as the named model. -/
  | modelExpected (model : Text)
  | arrayExpected
  | boolExpected
  | boolUnreadable
  | intExpected
  | intUnreadable
  | intTooLong
  | intFractional
  | intInfinite
  | pathExpected
  | extensionEmpty
  | debounceNotPositive
  | fieldUnknown (field : Text)
  deriving DecidableEq, Repr

namespace Fault

/-- The short name of a fault. -/
def code : Fault → Text
  | missing => "missing".toList
  | textExpected => "string_type".toList
  | objectExpected => "dict_type".toList
  | modelExpected _ => "model_type".toList
  | arrayExpected => "list_type".toList
  | boolExpected => "bool_type".toList
  | boolUnreadable => "bool_parsing".toList
  | intExpected => "int_type".toList
  | intUnreadable => "int_parsing".toList
  | intTooLong => "int_parsing_size".toList
  | intFractional => "int_from_float".toList
  | intInfinite => "finite_number".toList
  | pathExpected => "path_type".toList
  | extensionEmpty => "value_error".toList
  | debounceNotPositive => "value_error".toList
  | fieldUnknown _ => "no_such_attribute".toList

def message : Fault → Text
  | missing => "Field required".toList
  | textExpected => "Input should be a valid string".toList
  | objectExpected => "Input should be a valid dictionary".toList
  | modelExpected model => "Input should be a valid dictionary or instance of ".toList ++ model
  | arrayExpected => "Input should be a valid list".toList
  | boolExpected => "Input should be a valid boolean".toList
  | boolUnreadable => "Input should be a valid boolean, unable to interpret input".toList
  | intExpected => "Input should be a valid integer".toList
  | intUnreadable => "Input should be a valid integer, unable to parse string as an integer".toList
  | intTooLong => "Unable to parse input string as an integer, exceeded maximum size".toList
  | intFractional => "Input should be a valid integer, got a number with a fractional part".toList
  | intInfinite => "Input should be a finite number".toList
  | pathExpected => "Input is not a valid path for <class 'pathlib.Path'>".toList
  | extensionEmpty => "Value error, Managed extension must be a non-empty string".toList
  | debounceNotPositive =>
    "Value error, Debounce window must be a positive number of milliseconds".toList
  | fieldUnknown field => "Object has no attribute '".toList ++ field ++ ['\'']

end Fault

/-- A value that is not accepted: where it stands, why, and what it is. -/
structure Violation where
  location : List Text
  fault : Fault
  input : Json

/-- The outcome of a check: a value, or all violations in order. -/
abbrev Checked (α : Type) := Except (List Violation) α

namespace Checked

/-- Applies a checked function to a checked argument and keeps the violations of both. -/
def ap {α β : Type} : Checked (α → β) → Checked α → Checked β
  | .ok f, .ok a => .ok (f a)
  | .ok _, .error vs => .error vs
  | .error vs, .ok _ => .error vs
  | .error vs, .error ws => .error (vs ++ ws)

def all {α β : Type} (check : α → Checked β) : List α → Checked (List β)
  | [] => .ok []
  | a :: as => ap ((check a).map List.cons) (all check as)

end Checked

/-- A check of one value that stands at a location. -/
def checkAt {α : Type} (location : List Text) (check : Json → Except Fault α) (v : Json) :
    Checked α :=
  (check v).mapError fun fault => [⟨location, fault, v⟩]

/-- Checks a field of an object; a missing field is its default, or a violation if it has none. -/
def checkField {α : Type} (members : List (Text × Json)) (name : Text) (default : Option α)
    (check : Json → Checked α) : Checked α :=
  match members.lookup name, default with
  | some v, _ => check v
  | none, some a => .ok a
  | none, none => .error [⟨[name], .missing, .object members⟩]

/-- Whether a name belongs to a private attribute: such a name may be assigned to freely, and is no
field.  The names between double underscores that every object has, such as `__dict__` and
`__class__`, are left out: what assigning to them does is not told. -/
def isPrivateName (name : Text) : Bool := ['_'].isPrefixOf name

def acceptText : Json → Except Fault Text
  | .text t => .ok t
  | _ => .error .textExpected

def acceptObject : Json → Except Fault (List (Text × Json))
  | .object members => .ok members
  | _ => .error .objectExpected

/-- The words for true and for false, in lower case. -/
def trueWords : List Text := ["1", "true", "t", "yes", "y", "on"].map String.toList

@[inherit_doc trueWords]
def falseWords : List Text := ["0", "false", "f", "no", "n", "off"].map String.toList

/-- The integers that a signed word of 64 bits holds. -/
def isWord (n : Int) : Bool :=
  decide (-0x8000000000000000 ≤ n) && decide (n < 0x8000000000000000)

/-- The integers that lie strictly between the ends of such words.  A floating-point number at an
end may stand for numbers beyond it. -/
def isWithinWord (n : Int) : Bool := isWord n && decide (n ≠ -0x8000000000000000)

/-- Accepts one and zero as truth values. -/
def acceptBit (n : Int) : Except Fault Bool :=
  if n = 1 then .ok true else if n = 0 then .ok false else .error .boolUnreadable

/-- Accepts a truth value, the numbers one and zero, and the words for true and false in letters
of any case. -/
def acceptBool : Json → Except Fault Bool
  | .bool b => .ok b
  | .text t =>
    let word := t.map Char.toLower
    if word ∈ trueWords then .ok true
    else if word ∈ falseWords then .ok false
    else .error .boolUnreadable
  | .int n => if isWord n then acceptBit n else .error .boolExpected
  | .float x =>
    match x.toInt? with
    | some n => if isWithinWord n then acceptBit n else .error .boolExpected
    | none => .error .boolExpected
  | _ => .error .boolExpected

/-- Accepts a list of texts; each item that is none is a violation of its own. -/
def checkTexts (location : List Text) : Json → Checked (List Text)
  | .array items =>
    Checked.all (fun p => checkAt (location ++ [Text.ofNat p.2]) acceptText p.1) items.zipIdx
  | v => .error [⟨location, .arrayExpected, v⟩]

/-- Accepts a map from texts to texts; each value that is none is a violation of its own. -/
def checkTextMap (location : List Text) : Json → Checked (OrderedMap Text Text)
  | .object members =>
    (Checked.all (fun p => (checkAt (location ++ [p.1]) acceptText p.2).map (p.1, ·)) members).map
      .ofList
  | v => .error [⟨location, .objectExpected, v⟩]

namespace Violation

/-- Where a value stands: the names and indices that lead to it. -/
def path (v : Violation) : Text := Text.join ".".toList v.location

/-- One line for a violation: where, the short name of the fault, and its sentence. -/
def summary (v : Violation) : Text :=
  v.path ++ ": ".toList ++ v.fault.code ++ ": ".toList ++ v.fault.message

/-- The largest part of a UTF-8 text, counted from its start, that has at most `n` bytes. -/
def takeBytes (n : Nat) : Text → Text
  | [] => []
  | c :: t =>
    let width := (Utf8.encodeChar c).length
    if width ≤ n then c :: takeBytes (n - width) t else []

/-- A long text cut in the middle: of more than 50 bytes the first 25 and the last 24 are kept,
less what would be part of a character. -/
def abridge (t : Text) : Text :=
  if (Utf8.encode t).length ≤ 50 then t
  else takeBytes 25 t ++ "...".toList ++ (takeBytes 24 t.reverse).reverse

/-- Where a value stands in a full report: a name that holds a point is set off. -/
def reportPath (v : Violation) : Text :=
  Text.join ".".toList
    (v.location.map fun name => if name.contains '.' then '\x60' :: name ++ ['\x60'] else name)

/-- The lines that a full report gives to a violation. -/
def report (v : Violation) : Text :=
  (if v.location.isEmpty then [] else '\n' :: v.reportPath)
    ++ "\n  ".toList ++ v.fault.message ++ " [type=".toList ++ v.fault.code
    ++ ", input_value=".toList ++ abridge v.input.inspect ++ ", input_type=".toList
    ++ v.input.kind ++ "]".toList

def summarize (vs : List Violation) : Text := Text.join "\n".toList (vs.map summary)

/-- The full report on a model that was not accepted. -/
def reportOn (model : Text) (vs : List Violation) : Text :=
  Text.ofNat vs.length ++ " validation error".toList ++ (if vs.length = 1 then [] else ['s'])
    ++ " for ".toList ++ model ++ vs.flatMap report

end Violation

/-- The attributes of every model that tell which fields were given.  They cannot be assigned. -/
def bookkeepingNames : List Text := ["model_extra", "model_fields_set"].map String.toList

/-- Why an assignment to an attribute is refused. -/
inductive AssignmentRefusal where
  | invalid (violations : List Violation)
  /-- An attribute of the named model that follows from others. -/
  | derived (model name : Text)

def AssignmentRefusal.message : AssignmentRefusal → Text
  | invalid violations => Violation.summarize violations
  | derived model name =>
    "property '".toList ++ name ++ "' of '".toList ++ model ++ "' object has no setter".toList

end PageQueries
