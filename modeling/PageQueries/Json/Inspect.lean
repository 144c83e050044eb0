import PageQueries.Json.Printer

/-!
# Showing values in messages

A message about a value that was not accepted shows the value and names its kind.  A long value is
cut in the middle.
-/
namespace PageQueries.Json

mutual

/-- A value as messages show it. -/
def inspect : Json → Text
  | null => "None".toList
  | bool true => "True".toList
  | bool false => "False".toList
  | int n => Text.ofInt n
  | float (.finite negative m e) => Binary64.spellFinite negative m e
  | float (.infinity negative) => if negative then "-inf".toList else "inf".toList
  | float .nan => "nan".toList
  | text t => Text.quoted t
  | array items => '[' :: Text.join ", ".toList (inspectItems items) ++ [']']
  | object members => '\x7b' :: Text.join ", ".toList (inspectMembers members) ++ ['\x7d']

def inspectItems : List Json → List Text
  | [] => []
  | v :: vs => inspect v :: inspectItems vs

def inspectMembers : List (Text × Json) → List Text
  | [] => []
  | (name, v) :: ms => (Text.quoted name ++ ": ".toList ++ inspect v) :: inspectMembers ms

end

/-- The kind of a value as messages name it. -/
def kind : Json → Text
  | null => "NoneType".toList
  | bool _ => "bool".toList
  | int _ => "int".toList
  | float _ => "float".toList
  | text _ => "str".toList
  | array _ => "list".toList
  | object _ => "dict".toList

end PageQueries.Json
