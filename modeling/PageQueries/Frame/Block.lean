import PageQueries.Frame.Literals
import PageQueries.Frame.Sequence

/-!
# Blocks

The content of a frame comes in blocks.  A block holds its part of the content as it is, as one byte
that is repeated, or compressed: then it may refer to content and to codes of the blocks before it.
-/
namespace PageQueries.Frame

/-- What the blocks of a frame have given so far. -/
structure Decoded where
  content : Array UInt8
  /-- The latest tree of literals. -/
  tree : Option HuffmanTree
  /-- The latest machines of sequences. -/
  tables : Option (Triple StateTable)
  distances : Distances

namespace Decoded

def start : Decoded := ⟨#[], none, none, .start⟩

def append? (limit : Nat) (d : Decoded) (bs : Bytes) : Option Decoded :=
  if d.content.size + bs.length ≤ limit then some { d with content := d.content ++ bs } else none

/-- Adds what a compressed block holds. -/
def compressed? (limit blockLimit : Nat) (d : Decoded) (bs : Bytes) : Option Decoded := do
  let literals ← Literals.read? blockLimit d.tree bs
  let (sequences, tables) ← Sequence.read? d.tables literals.rest
  let (content, distances, rest) ←
    Sequence.run? limit sequences d.content d.distances literals.bytes
  append? limit ⟨content, literals.tree, tables, distances⟩ rest

/-- Adds what a block of the given kind and size holds; gives what follows the block. -/
def block? (limit blockLimit kind size : Nat) (d : Decoded) (bs : Bytes) :
    Option (Decoded × Bytes) :=
  match kind with
  | 0 => do
    let (content, rest) ← takeBytes? size bs
    (d.append? limit content).map (·, rest)
  | 1 => do
    let (content, rest) ← takeBytes? 1 bs
    (d.append? limit (List.replicate size (content.headD 0))).map (·, rest)
  | 2 => do
    let (content, rest) ← takeBytes? size bs
    if blockLimit < size then none
    else (d.compressed? limit blockLimit content).map (·, rest)
  | _ => none

/-- Adds at most `n` blocks up to and with the last one. -/
def blocks? (limit blockLimit : Nat) : (n : Nat) → Decoded → Bytes → Option (Decoded × Bytes)
  | 0, _, _ => none
  | n + 1, d, bs =>
    match takeNumber? 3 bs with
    | none => none
    | some (h, rest) =>
      match d.block? limit blockLimit (h / 2 % 4) (h / 8) rest with
      | none => none
      | some (d, rest) => if h % 2 = 1 then some (d, rest) else blocks? limit blockLimit n d rest

end Decoded

end PageQueries.Frame
