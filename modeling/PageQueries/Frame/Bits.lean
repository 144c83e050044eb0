import PageQueries.Frame.Basic

/-!
# Streams of bits

Parts of a compressed block are streams of bits.  A *forward* stream begins with the lowest bit of
its first byte, and the first bit of a number is its lowest.  A *backward* stream begins behind the
highest one bit of its last byte, and the first bit of a number is its highest.
-/
namespace PageQueries.Frame

/-- Bits in the order in which they are read. -/
abbrev Bits := List Bool

namespace Bits

def ofByte (b : UInt8) : Bits := (List.range 8).map fun i => b.toNat.testBit i

/-- The bits of bytes from the lowest of the first byte on. -/
def forward (bs : Bytes) : Bits := bs.flatMap ofByte

/-- The bits of bytes from behind the highest one bit of the last byte on, which must have one. -/
def backward? (bs : Bytes) : Option Bits :=
  match bs.getLast? with
  | none => none
  | some last => if last = 0 then none else some (((forward bs).reverse.dropWhile (!·)).drop 1)

/-- Reads `width` bits as a number, the lowest first. -/
def takeLow? : (width : Nat) → Bits → Option (Nat × Bits)
  | 0, bits => some (0, bits)
  | _ + 1, [] => none
  | width + 1, b :: bits => (takeLow? width bits).map fun r => (b.toNat + 2 * r.1, r.2)

/-- Reads `width` more bits of a number, the highest first; `high` is what has been read. -/
def takeHighFrom? : (width high : Nat) → Bits → Option (Nat × Bits)
  | 0, high, bits => some (high, bits)
  | _ + 1, _, [] => none
  | width + 1, high, b :: bits => takeHighFrom? width (2 * high + b.toNat) bits

/-- Reads `width` bits as a number, the highest first. -/
def takeHigh? (width : Nat) (bits : Bits) : Option (Nat × Bits) := takeHighFrom? width 0 bits

end Bits

end PageQueries.Frame
