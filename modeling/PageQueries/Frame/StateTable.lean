import PageQueries.Frame.Bits

/-!
# State tables

The numbers of a compressed block are coded by finite state machines.  A machine has a power of two
of states; each stands for a symbol and tells how many bits lead to which next state.  It is built
from the *counts* of the symbols, which say how many states a symbol has; a count of -1 stands for
one state that is read anew after each use.
-/
namespace PageQueries.Frame

/-- A state: its symbol, and the `width` bits that are added to `base` to give the next state. -/
structure CodeState where
  symbol : Nat
  width : Nat
  base : Nat
  deriving Repr

/-- A machine of `Nat.pow 2 log` states. -/
structure StateTable where
  log : Nat
  states : Array CodeState
  deriving Repr

namespace StateTable

/-! ## Building a table -/

/-- The number of states that a count stands for. -/
def stateCount (count : Int) : Nat := if count < 0 then 1 else count.toNat

/-- The symbols with a positive count, each as often as its count says. -/
def spreadSymbols (counts : List Int) : List Nat :=
  counts.zipIdx.flatMap fun c => List.replicate c.1.toNat c.2

/-- The symbols with the count -1. -/
def rareSymbols (counts : List Int) : List Nat :=
  (counts.zipIdx.filter (·.1 < 0)).map Prod.snd

/-- The places of the symbols that are spread, in steps of more than half the size, around and
around. Rare symbols take the places at the end. -/
def places (size rare : Nat) : List Nat :=
  let step := size / 2 + size / 8 + 3
  ((List.range size).map fun k => k * step % size).filter (· < size - rare)

/-- The symbols of all states in order. -/
def symbolsOf (log : Nat) (counts : List Int) : Array Nat :=
  let size := Nat.pow 2 log
  let rare := rareSymbols counts
  let spread := (places size rare.length).zip (spreadSymbols counts)
  let atEnd := rare.zipIdx.map fun s => (size - 1 - s.2, s.1)
  (spread ++ atEnd).foldl (fun a p => a.setIfInBounds p.1 p.2) (Array.replicate size 0)

/-- The states for symbols in order.  `next` has a number for each symbol: the states of a symbol
take the numbers from its count on, and the larger a number, the fewer bits lead to the next state.
-/
def number (log : Nat) : (next : Array Nat) → List Nat → List CodeState
  | _, [] => []
  | next, s :: ss =>
    let n := next.getD s 1
    let width := log - n.log2
    ⟨s, width, n * Nat.pow 2 width - Nat.pow 2 log⟩ :: number log (next.setIfInBounds s (n + 1)) ss

/-- The machine with the given counts. -/
def ofCounts (log : Nat) (counts : List Int) : StateTable :=
  let next := (counts.map stateCount).toArray
  ⟨log, (number log next (symbolsOf log counts).toList).toArray⟩

/-- The machine with one state, which reads no bits. -/
def constant (symbol : Nat) : StateTable := ⟨0, #[⟨symbol, 0, 0⟩]⟩

/-! ## Reading counts -/

/-- Reads how many symbols without states follow one: two bits at a time, as long as both are set.
-/
def zeroRun? : Bits → Option (Nat × Bits)
  | true :: true :: bits => (zeroRun? bits).map fun r => (r.1 + 3, r.2)
  | low :: high :: bits => some (low.toNat + 2 * high.toNat, bits)
  | _ => none

/-- Reads a count plus one, if `left` states less one are left.  It lies between zero and `left`,
and the smaller of these numbers take one bit less. -/
def countCode? (left : Nat) (bits : Bits) : Option (Nat × Bits) := do
  let threshold := Nat.pow 2 left.log2
  let short := 2 * threshold - 1 - left
  let (low, r) ← Bits.takeLow? left.log2 bits
  if low < short then some (low, r)
  else do
    let (high, r) ← Bits.takeLow? 1 r
    let n := low + high * threshold
    some (if n < threshold then n else n - short, r)

/-- Reads the counts of at most `room` symbols, until one less than `left` states have been given
out; none may be left over. -/
def counts? : (room : Nat) → (left : Nat) → Bits → Option (List Int × Bits)
  | room, left, bits =>
    if left = 1 then some ([], bits)
    else
      match room with
      | 0 => none
      | room + 1 =>
        match countCode? left bits with
        | none => none
        | some (0, bits) => (counts? room (left - 1) bits).map fun r => (-1 :: r.1, r.2)
        | some (1, bits) =>
          match zeroRun? bits with
          | none => none
          | some (run, bits) =>
            if room ≤ run then none
            else
              (counts? (room - run) left bits).map fun r => (List.replicate (run + 1) 0 ++ r.1, r.2)
        | some (code + 2, bits) =>
          (counts? room (left - (code + 1)) bits).map fun r =>
            (((code + 1 : Nat) : Int) :: r.1, r.2)
termination_by room => room
decreasing_by all_goals omega

/-- Reads the counts of the symbols up to `greatest`, for a machine of at most `Nat.pow 2 limit`
states; gives the machine and the bytes that follow. -/
def read? (greatest limit : Nat) (bs : Bytes) : Option (StateTable × Bytes) := do
  let bits := Bits.forward bs
  let (extra, r) ← Bits.takeLow? 4 bits
  let log := extra + 5
  if limit < log then none
  else
    let (counts, r) ← counts? (greatest + 1) (Nat.pow 2 log + 1) r
    some (ofCounts log counts, bs.drop ((bits.length - r.length + 7) / 8))

/-! ## Running a machine -/

def state (t : StateTable) (n : Nat) : CodeState := t.states.getD n ⟨0, 0, 0⟩

def start? (t : StateTable) (bits : Bits) : Option (CodeState × Bits) :=
  (Bits.takeHigh? t.log bits).map fun r => (t.state r.1, r.2)

def next? (t : StateTable) (s : CodeState) (bits : Bits) : Option (CodeState × Bits) :=
  (Bits.takeHigh? s.width bits).map fun r => (t.state (s.base + r.1), r.2)

end StateTable

end PageQueries.Frame
