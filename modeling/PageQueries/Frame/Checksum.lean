import PageQueries.Frame.Basic

/-!
# Checksums

A frame may end with a checksum of its content: the low four bytes of the 64-bit xxHash with seed
zero. The hash takes the content in stripes of 32 bytes, one word of each to one of four lanes,
merges the lanes, and then takes the bytes that are left.
-/
namespace PageQueries.Frame.Checksum

/-- The five numbers that the hash multiplies with. -/
def prime1 : UInt64 := 0x9e3779b185ebca87

@[inherit_doc prime1]
def prime2 : UInt64 := 0xc2b2ae3d27d4eb4f

@[inherit_doc prime1]
def prime3 : UInt64 := 0x165667b19e3779f9

@[inherit_doc prime1]
def prime4 : UInt64 := 0x85ebca77c2b2ae63

@[inherit_doc prime1]
def prime5 : UInt64 := 0x27d4eb2f165667c5

/-- Rotates a word to the left by `n` bits, `0 < n < 64`. -/
def rotateLeft (x n : UInt64) : UInt64 := (x <<< n) ||| (x >>> (64 - n))

/-- Takes a word into a lane. -/
def round (lane word : UInt64) : UInt64 := rotateLeft (lane + word * prime2) 31 * prime1

/-- The word in some bytes, the least significant first. -/
def wordOf (bs : Bytes) : UInt64 := UInt64.ofNat (ofLittleEndian bs)

structure Lanes where
  a : UInt64
  b : UInt64
  c : UInt64
  d : UInt64

namespace Lanes

def start : Lanes := ⟨prime1 + prime2, prime2, 0, 0 - prime1⟩

def absorb (v : Lanes) (stripe : Bytes) : Lanes :=
  let word (i : Nat) : UInt64 := wordOf ((stripe.drop (8 * i)).take 8)
  ⟨round v.a (word 0), round v.b (word 1), round v.c (word 2), round v.d (word 3)⟩

/-- The hash of the stripes. -/
def merge (v : Lanes) : UInt64 :=
  let mix (h lane : UInt64) : UInt64 := (h ^^^ round 0 lane) * prime1 + prime4
  let h := rotateLeft v.a 1 + rotateLeft v.b 7 + rotateLeft v.c 12 + rotateLeft v.d 18
  mix (mix (mix (mix h v.a) v.b) v.c) v.d

end Lanes

def stripes : (n : Nat) → Lanes → Bytes → Lanes
  | 0, v, _ => v
  | n + 1, v, bs => stripes n (v.absorb (bs.take 32)) (bs.drop 32)

/-- Takes the last bytes, one by one. -/
def bytes (h : UInt64) (bs : Bytes) : UInt64 :=
  bs.foldl (fun h b => rotateLeft (h ^^^ (b.toUInt64 * prime5)) 11 * prime1) h

/-- Takes four bytes, if there are so many, and the rest one by one. -/
def halfWord (h : UInt64) (bs : Bytes) : UInt64 :=
  if 4 ≤ bs.length then
    bytes (rotateLeft (h ^^^ (wordOf (bs.take 4) * prime1)) 23 * prime2 + prime3) (bs.drop 4)
  else bytes h bs

def words : (n : Nat) → UInt64 → Bytes → UInt64
  | 0, h, bs => halfWord h bs
  | n + 1, h, bs =>
    words n (rotateLeft (h ^^^ round 0 (wordOf (bs.take 8))) 27 * prime1 + prime4) (bs.drop 8)

def spread (h : UInt64) : UInt64 :=
  let h := (h ^^^ (h >>> 33)) * prime2
  let h := (h ^^^ (h >>> 29)) * prime3
  h ^^^ (h >>> 32)

def hash (content : Bytes) : UInt64 :=
  let size := content.length
  let h := if 32 ≤ size then (stripes (size / 32) .start content).merge else prime5
  let rest := content.drop (size / 32 * 32)
  spread (words (rest.length / 8) (h + UInt64.ofNat size) rest)

/-- The checksum of content as it ends a frame. -/
def ofContent (content : Bytes) : Nat := (hash content).toNat % 0x100000000

end PageQueries.Frame.Checksum
