import PageQueries.Frame.Huffman

/-!
# Literals

A compressed block begins with its literals: the bytes that are no repetition of earlier ones.  They
stand there as they are, as one byte that is repeated, or coded by a tree that precedes them or that
an earlier block had.
-/
namespace PageQueries.Frame

/-- The literals of a block, the tree in force behind them, and what follows. -/
structure Literals where
  bytes : Bytes
  tree : Option HuffmanTree
  rest : Bytes

namespace Literals

/-- Reads the number of literals that are not coded; gives it and what follows. -/
def plainSize? (bs : Bytes) : Option (Nat × Bytes) :=
  match bs with
  | [] => none
  | b :: _ =>
    match b.toNat / 4 % 4 with
    | 1 => (takeNumber? 2 bs).map fun r => (r.1 / 16, r.2)
    | 3 => (takeNumber? 3 bs).map fun r => (r.1 / 16, r.2)
    | _ => (takeNumber? 1 bs).map fun r => (r.1 / 8, r.2)

/-- The head of coded literals: in how many streams they are, how many they are, and how many bytes
the tree and the streams take. -/
structure CodedHead where
  single : Bool
  size : Nat
  codedSize : Nat

def codedHead? (bs : Bytes) : Option (CodedHead × Bytes) :=
  match bs with
  | [] => none
  | b :: _ =>
    let head (width bits : Nat) (single : Bool) : Option (CodedHead × Bytes) :=
      (takeNumber? width bs).map fun r =>
        let unit := Nat.pow 2 bits
        (⟨single, r.1 / 16 % unit, r.1 / 16 / unit % unit⟩, r.2)
    match b.toNat / 4 % 4 with
    | 0 => head 3 10 true
    | 1 => head 3 10 false
    | 2 => head 4 14 false
    | _ => head 5 18 false

def stream? (t : HuffmanTree) (n : Nat) (read : Array UInt8) (bs : Bytes) :
    Option (Array UInt8) := do
  let bits ← Bits.backward? bs
  t.symbols? n read bits

/-- Reads `n` literals from four streams.  The sizes of the first three come first; each but the
last stream holds a quarter of the literals, rounded up. -/
def fourStreams? (t : HuffmanTree) (n : Nat) (bs : Bytes) : Option (Array UInt8) := do
  let (size1, r) ← takeNumber? 2 bs
  let (size2, r) ← takeNumber? 2 r
  let (size3, r) ← takeNumber? 2 r
  let (stream1, r) ← takeBytes? size1 r
  let (stream2, r) ← takeBytes? size2 r
  let (stream3, stream4) ← takeBytes? size3 r
  let quarter := (n + 3) / 4
  if n < 6 || n < 3 * quarter then none
  else do
    let read ← stream? t quarter #[] stream1
    let read ← stream? t quarter read stream2
    let read ← stream? t quarter read stream3
    stream? t (n - 3 * quarter) read stream4

def coded? (t : HuffmanTree) (head : CodedHead) (bs : Bytes) : Option Bytes :=
  (if head.single then stream? t head.size #[] bs else fourStreams? t head.size bs).map
    Array.toList

/-- Reads the literals of a block, at most `limit` of them.  `tree` is the tree in force before. -/
def read? (limit : Nat) (tree : Option HuffmanTree) (bs : Bytes) : Option Literals := do
  let kind := (bs.headD 0).toNat % 4
  if kind < 2 then do
    let (size, r) ← plainSize? bs
    if limit < size then none
    else if kind = 0 then do
      let (bytes, r) ← takeBytes? size r
      some ⟨bytes, tree, r⟩
    else do
      let (b, r) ← takeBytes? 1 r
      some ⟨List.replicate size (b.headD 0), tree, r⟩
  else do
    let (head, r) ← codedHead? bs
    let (coded, r) ← takeBytes? head.codedSize r
    if limit < head.size then none
    else if kind = 2 then do
      let (t, streams) ← HuffmanTree.read? coded
      some ⟨← coded? t head streams, some t, r⟩
    else do
      let t ← tree
      some ⟨← coded? t head coded, tree, r⟩

end Literals

end PageQueries.Frame
