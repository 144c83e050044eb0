import PageQueries.Store.Disk
import PageQueries.Store.Memory

/-!
# Stores

The two phases of a page share nothing but a store, which is in memory or on disk.
-/
namespace PageQueries

/-- A store of either kind. -/
inductive Store where
  | memory (s : MemoryStore)
  | disk (s : DiskStore)

namespace Store

def set (s : Store) (key : Text) (queries : Queries) : Store :=
  match s with
  | memory m => memory (m.set key queries)
  | disk d => disk (d.set key queries)

/-- The queries of a page, if they are stored; counts the request. -/
def get (s : Store) (key : Text) :
    Except Json.Limit (Option (OrderedMap Text Json)) × Store × List Warning :=
  match s with
  | memory m =>
    let (queries, m) := m.get key
    (.ok (queries.map (·.map .text)), memory m, [])
  | disk d =>
    let (queries, d, warnings) := d.get key
    (queries, disk d, warnings)

/-- Removes the entry of a page; tells whether there was one. -/
def discard (s : Store) (key : Text) : Bool × Store :=
  match s with
  | memory m => let (found, m) := m.discard key; (found, memory m)
  | disk d => let (found, d) := d.discard key; (found, disk d)

def contains (s : Store) (key : Text) : Bool :=
  match s with
  | memory m => m.contains key
  | disk d => d.contains key

def clear (s : Store) : Store :=
  match s with
  | memory m => memory m.clear
  | disk d => disk d.clear

def keys (s : Store) : Except DiskStore.ListingError (List Json) × Store × List Warning :=
  match s with
  | memory m => (.ok (m.keys.map .text), memory m, [])
  | disk d =>
    let (keys, d, warnings) := d.keys
    (keys, disk d, warnings)

def size (s : Store) : Nat :=
  match s with
  | memory m => m.size
  | disk d => d.size

def counters (s : Store) : Counters :=
  match s with
  | memory m => m.counters
  | disk d => d.counters

/-- Whether entries are compressed; a memory store has no such setting. -/
def compressed? (s : Store) : Option Bool :=
  match s with
  | memory _ => none
  | disk d => some d.codec.isSome

end Store

end PageQueries
