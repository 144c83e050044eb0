import PageQueries.Classification
import PageQueries.Store.Counters

/-!
# The memory store

Keeps the queries of pages by route key for as long as the store exists.  Storing queries again
moves their key to the end.
-/
namespace PageQueries

/-- A store that keeps queries in memory (`QueryStore`). -/
structure MemoryStore where
  entries : OrderedMap Text Queries
  counters : Counters

namespace MemoryStore

def new : MemoryStore := ⟨.empty, .zero⟩

def set (s : MemoryStore) (key : Text) (queries : Queries) : MemoryStore :=
  { s with entries := s.entries.renew key queries }

/-- The queries of a page, if they are stored; counts the request. -/
def get (s : MemoryStore) (key : Text) : Option Queries × MemoryStore :=
  match s.entries.get? key with
  | some queries => (some queries, { s with counters := s.counters.hit })
  | none => (none, { s with counters := s.counters.miss })

def discard (s : MemoryStore) (key : Text) : Bool × MemoryStore :=
  (s.entries.contains key, { s with entries := s.entries.erase key })

def clear (s : MemoryStore) : MemoryStore := { s with entries := .empty }

/-- The keys of all entries, latest stored last. -/
def keys (s : MemoryStore) : List Text := s.entries.keys

def contains (s : MemoryStore) (key : Text) : Bool := s.entries.contains key

def size (s : MemoryStore) : Nat := s.entries.size

end MemoryStore

end PageQueries
