import PageQueries.Classification
import PageQueries.Codec
import PageQueries.Json.Parser
import PageQueries.Json.Printer

/-!
# Stored entries

An entry is a JSON object with the page's route key and its queries, written in ASCII and, in a
compressed store, wrapped by its codec.  Reading is tolerant: any object whose `queries` is an
object is an entry, whatever values it holds.  Content that is no entry is corrupt; content that
exceeds a limit of the JSON reader is neither an entry nor corrupt.
-/
namespace PageQueries

structure Entry where
  /-- The route key, if the entry tells it; it may be any value. -/
  key : Option Json
  queries : OrderedMap Text Json

/-- Why content is not read as an entry. -/
inductive EntryFault where
  | corrupt
  | limit (l : Json.Limit)
  deriving DecidableEq, Repr

namespace Entry

/-- The text of an entry. -/
def encode (key : Text) (queries : Queries) : Text :=
  Json.render (.object
    [("key".toList, .text key),
      ("queries".toList, .object (queries.toList.map fun q => (q.1, .text q.2)))])

/-- Reads an entry from a value. -/
def ofJson? (v : Json) : Option Entry :=
  match v.get? "queries".toList with
  | some (.object members) => some ⟨v.get? "key".toList, .ofList members⟩
  | _ => none

/-- Reads an entry from its text. -/
def decode (t : Text) : Except EntryFault Entry :=
  match Json.parse t with
  | .error (.limit l) => .error (.limit l)
  | .error .malformed => .error .corrupt
  | .ok v =>
    match ofJson? v with
    | some entry => .ok entry
    | none => .error .corrupt

/-- The content of an entry's file. -/
def write (codec : Option Codec) (key : Text) (queries : Queries) : Bytes :=
  Codec.pack codec (Utf8.encode (encode key queries))

/-- Reads an entry from the content of a file (`_read_entry`). -/
def read (codec : Option Codec) (content : Bytes) : Except EntryFault Entry :=
  match Codec.unpack? codec content with
  | none => .error .corrupt
  | some bytes =>
    match Utf8.decode bytes with
    | .ok t => decode t
    | .error _ => .error .corrupt

end Entry

end PageQueries
