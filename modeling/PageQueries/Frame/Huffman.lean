import PageQueries.Frame.StateTable

/-!
# Huffman codes

The literals of a compressed block may be coded by a tree.  The tree is told by the *weights* of its
symbols: a symbol of weight `w > 0` lies at a depth that is `w` less than one more than the depth of
the tree, and a symbol of weight zero does not occur.
-/
namespace PageQueries.Frame

/-- A binary tree with a byte at each leaf. -/
inductive HuffmanTree where
  | leaf (symbol : UInt8)
  | node (zero one : HuffmanTree)

namespace HuffmanTree

def symbol? : HuffmanTree → Bits → Option (UInt8 × Bits)
  | leaf s, bits => some (s, bits)
  | node _ _, [] => none
  | node zero one, b :: bits => if b then one.symbol? bits else zero.symbol? bits

/-- Reads `n` symbols, which must be all that the bits hold, and adds them to `read`. -/
def symbols? (t : HuffmanTree) : (n : Nat) → (read : Array UInt8) → Bits → Option (Array UInt8)
  | 0, read, bits => if bits.isEmpty then some read else none
  | n + 1, read, bits =>
    match t.symbol? bits with
    | some (s, bits) => symbols? t n (read.push s) bits
    | none => none

/-! ## Building a tree -/

/-- Joins neighbours. -/
def pairUp : List HuffmanTree → List HuffmanTree
  | a :: b :: ts => node a b :: pairUp ts
  | ts => ts

/-- The leaves of a weight in the order of their symbols. -/
def leaves (weights : List Nat) (w : Nat) : List HuffmanTree :=
  (weights.zipIdx.filter (·.1 = w)).map fun s => leaf (UInt8.ofNat s.2)

/-- The trees whose roots have weight `w`, those with several leaves first. -/
def treesOf (weights : List Nat) : (w : Nat) → List HuffmanTree
  | 0 => []
  | w + 1 => pairUp (treesOf weights w) ++ leaves weights (w + 1)

def depthLimit : Nat := 12

/-- The number of lowest places that the symbols of the given weights take. -/
def weightSum (weights : List Nat) : Nat :=
  weights.foldl (fun n w => if w = 0 then n else n + Nat.pow 2 (w - 1)) 0

/-- The tree of the given weights, to which the weight of one more symbol is added, so that the sum
becomes a power of two. -/
def ofWeights? (weights : List Nat) : Option HuffmanTree :=
  let sum := weightSum weights
  let depth := sum.log2 + 1
  let rest := Nat.pow 2 depth - sum
  let all := weights ++ [rest.log2 + 1]
  if weights.any (depthLimit < ·) || sum = 0 || depthLimit < depth then none
  else if rest ≠ Nat.pow 2 rest.log2 || all.count 1 < 2 then none
  else
    match treesOf all (depth + 1) with
    | [t] => some t
    | _ => none

/-! ## Reading weights -/

/-- The greatest number of weights that two machines may give. -/
def weightLimit : Nat := 254

/-- Reads weights from two machines over one table, turn by turn.  When the bits end within a step
of one machine, the state of the other gives the last weight. -/
def weightsFrom? (t : StateTable) : (fuel : Nat) → (turn other : CodeState) → Bits →
    Option (List Nat)
  | 0, _, _, _ => none
  | fuel + 1, turn, other, bits =>
    match t.next? turn bits with
    | none => some [turn.symbol, other.symbol]
    | some (next, bits) => (weightsFrom? t fuel other next bits).map (turn.symbol :: ·)

/-- Reads weights that are coded by machines. -/
def codedWeights? (bs : Bytes) : Option (List Nat) := do
  let (t, rest) ← StateTable.read? 255 6 bs
  let bits ← Bits.backward? rest
  let (first, bits) ← t.start? bits
  let (second, bits) ← t.start? bits
  weightsFrom? t weightLimit first second bits

def plainWeights (n : Nat) (bs : Bytes) : List Nat :=
  (bs.flatMap fun b => [b.toNat / 16, b.toNat % 16]).take n

/-- Reads a tree; gives the tree and the bytes that follow. -/
def read? (bs : Bytes) : Option (HuffmanTree × Bytes) := do
  let (h, rest) ← takeNumber? 1 bs
  if h < 128 then do
    let (coded, rest) ← takeBytes? h rest
    (ofWeights? (← codedWeights? coded)).map (·, rest)
  else do
    let n := h - 127
    let (plain, rest) ← takeBytes? ((n + 1) / 2) rest
    (ofWeights? (plainWeights n plain)).map (·, rest)

end HuffmanTree

end PageQueries.Frame
