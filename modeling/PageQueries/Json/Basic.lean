import PageQueries.Number.Binary64
import PageQueries.OrderedMap

/-!
# JSON values

Entries of the disk store, metadata and configuration values are JSON values.  An object keeps its
members in order and has each name once; numbers with a fraction or an exponent are binary
floating-point numbers, all others are integers of any size.
-/
namespace PageQueries

inductive Json where
  | null
  | bool (b : Bool)
  | int (n : Int)
  | float (x : Binary64)
  | text (t : Text)
  | array (items : List Json)
  | object (members : List (Text × Json))

namespace Json

instance : Inhabited Json := ⟨null⟩

/-- The member of an object with the given name. -/
def get? (name : Text) : Json → Option Json
  | object members => members.lookup name
  | _ => none

/-- The text that a value is. -/
def asText? : Json → Option Text
  | text t => some t
  | _ => none

end Json

end PageQueries
