import PageQueries.Text.Utf8

/-!
# Compressed frames

A compressed entry is one Zstandard frame: a magic number, a header that states the size of the
content, and blocks.  This module holds the numbers that frames are made of, and `wrap`, which
writes content as raw blocks; the modules beside it read frames of any kind.
-/
namespace PageQueries.Frame

/-- The four bytes that every frame begins with. -/
def magic : Bytes := [0x28, 0xb5, 0x2f, 0xfd]

/-- A number in `width` bytes, the least significant first. -/
def littleEndian : (width : Nat) → Nat → Bytes
  | 0, _ => []
  | width + 1, n => UInt8.ofNat (n % 256) :: littleEndian width (n / 256)

def ofLittleEndian : Bytes → Nat
  | [] => 0
  | b :: bs => b.toNat + 256 * ofLittleEndian bs

/-- The first `width` bytes, if there are so many, and what follows them. -/
def takeBytes? (width : Nat) (bs : Bytes) : Option (Bytes × Bytes) :=
  if width ≤ bs.length then some (bs.take width, bs.drop width) else none

/-- The number in the first `width` bytes, if there are so many, and what follows them. -/
def takeNumber? (width : Nat) (bs : Bytes) : Option (Nat × Bytes) :=
  (takeBytes? width bs).map fun r => (ofLittleEndian r.1, r.2)

/-- The largest content of a block that is written. -/
def blockLimit : Nat := 131072

/-- The three bytes before a block: whether it is the last one, its kind and its size. -/
def blockHeader (last : Bool) (kind size : Nat) : Bytes :=
  littleEndian 3 ((if last then 1 else 0) + 2 * kind + 8 * size)

/-- Writes content as raw blocks, at most `n + 1` of them. -/
def rawBlocks : (n : Nat) → Bytes → Bytes
  | 0, bs => blockHeader true 0 bs.length ++ bs
  | n + 1, bs =>
    if bs.length ≤ blockLimit then blockHeader true 0 bs.length ++ bs
    else blockHeader false 0 blockLimit ++ bs.take blockLimit ++ rawBlocks n (bs.drop blockLimit)

/-- Writes content as one frame whose size takes eight bytes.  The frame is no smaller than its
content; writers that look for repetitions give other frames of the same content. -/
def wrap (content : Bytes) : Bytes :=
  magic ++ 0xe0 :: littleEndian 8 content.length
    ++ rawBlocks (content.length / blockLimit) content

end PageQueries.Frame
