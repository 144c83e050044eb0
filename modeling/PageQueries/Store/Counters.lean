import PageQueries.Number.Binary64

/-!
# Request counters

A store counts how often it was asked for the queries of a page and how often it had them.
-/
namespace PageQueries

/-- How often a store was asked, and with what success (`get_stats`). -/
structure Counters where
  hits : Nat
  misses : Nat
  requests : Nat
  deriving DecidableEq, Repr

namespace Counters

def zero : Counters := ⟨0, 0, 0⟩

def hit (c : Counters) : Counters := ⟨c.hits + 1, c.misses, c.requests + 1⟩

def miss (c : Counters) : Counters := ⟨c.hits, c.misses + 1, c.requests + 1⟩

/-- Counts a request that failed: it is neither a hit nor a miss. -/
def failure (c : Counters) : Counters := ⟨c.hits, c.misses, c.requests + 1⟩

/-- The answered part of the requests; nothing of no request. -/
def hitRate (c : Counters) : Binary64 := .ofRatio false c.hits (max c.requests 1)

end Counters

end PageQueries
