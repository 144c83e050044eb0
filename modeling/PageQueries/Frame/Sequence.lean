import PageQueries.Frame.StateTable

/-!
# Sequences

Behind its literals a compressed block has sequences.  A sequence takes some literals and then
repeats bytes that lie some way back, which may overlap with what it makes.  Its three numbers are
coded by one machine each, plus bits of their own.
-/
namespace PageQueries.Frame

/-- What a block adds to the content before its last literals. -/
structure Sequence where
  literalLength : Nat
  matchLength : Nat
  /-- How far back the repeated bytes lie plus three, or which of the latest distances it is. -/
  offsetValue : Nat
  deriving Repr

/-- The distances of the latest sequences, latest first. -/
structure Distances where
  first : Nat
  second : Nat
  third : Nat

namespace Distances

def start : Distances := ⟨1, 4, 8⟩

/-- The distance of a sequence, and the latest distances after it.  After no literals the first of
the latest distances cannot be meant: the numbers then stand for the second, the third, and one less
than the first. -/
def resolve? (d : Distances) (s : Sequence) : Option (Nat × Distances) :=
  if 3 < s.offsetValue then
    let n := s.offsetValue - 3
    some (n, ⟨n, d.first, d.second⟩)
  else
    match s.offsetValue + (if s.literalLength = 0 then 1 else 0) with
    | 1 => some (d.first, d)
    | 2 => some (d.second, ⟨d.second, d.first, d.third⟩)
    | 3 => some (d.third, ⟨d.third, d.first, d.second⟩)
    | _ =>
      let n := d.first - 1
      if n = 0 then none else some (n, ⟨n, d.first, d.second⟩)

end Distances

/-! ## Codes -/

/-- What the codes of a number mean: the least number of a code, and how many bits are added. -/
structure NumberCode where
  /-- The greatest code. -/
  greatest : Nat
  /-- The least number of each code, with the number of bits. -/
  meaning : Nat → Nat × Nat
  /-- The greatest size of a machine. -/
  logLimit : Nat
  /-- The machine that is used if none is told. -/
  standard : StateTable

namespace NumberCode

/-- The meaning of codes by a first range of numbers and a list for those behind it. -/
def listed (plain shift : Nat) (widths : List (Nat × Nat)) (code : Nat) : Nat × Nat :=
  if code < plain then (code + shift, 0) else widths.getD (code - plain) (0, 0)

/-- The codes of the numbers of literals. -/
def literalLength : NumberCode where
  greatest := 35
  meaning := listed 16 0
    [(16, 1), (18, 1), (20, 1), (22, 1), (24, 2), (28, 2), (32, 3), (40, 3), (48, 4), (64, 6),
      (128, 7), (256, 8), (512, 9), (1024, 10), (2048, 11), (4096, 12), (8192, 13), (16384, 14),
      (32768, 15), (65536, 16)]
  logLimit := 9
  standard := .ofCounts 6
    [4, 3, 2, 2, 2, 2, 2, 2, 2, 2, 2, 2, 2, 1, 1, 1, 2, 2, 2, 2, 2, 2, 2, 2, 2, 3, 2, 1, 1, 1, 1, 1,
      -1, -1, -1, -1]

/-- The codes of the lengths of repetitions. -/
def matchLength : NumberCode where
  greatest := 52
  meaning := listed 32 3
    [(35, 1), (37, 1), (39, 1), (41, 1), (43, 2), (47, 2), (51, 3), (59, 3), (67, 4), (83, 4),
      (99, 5), (131, 7), (259, 8), (515, 9), (1027, 10), (2051, 11), (4099, 12), (8195, 13),
      (16387, 14), (32771, 15), (65539, 16)]
  logLimit := 9
  standard := .ofCounts 6
    [1, 4, 3, 2, 2, 2, 2, 2, 2, 1, 1, 1, 1, 1, 1, 1, 1, 1, 1, 1, 1, 1, 1, 1, 1, 1, 1, 1, 1, 1, 1, 1,
      1, 1, 1, 1, 1, 1, 1, 1, 1, 1, 1, 1, 1, 1, -1, -1, -1, -1, -1, -1, -1]

/-- The codes of the offset values: a code is the number of bits behind the highest. -/
def offset : NumberCode where
  greatest := 31
  meaning code := (Nat.pow 2 code, code)
  logLimit := 8
  standard := .ofCounts 5
    [1, 1, 1, 1, 1, 1, 2, 2, 2, 1, 1, 1, 1, 1, 1, 1, 1, 1, 1, 1, 1, 1, 1, 1, -1, -1, -1, -1, -1]

/-- Reads the machine of a code in one of four modes: the standard one, one symbol for all, counts,
or the machine of the block before. -/
def table? (c : NumberCode) (mode : Nat) (before : Option StateTable) (bs : Bytes) :
    Option (StateTable × Bytes) :=
  match mode with
  | 0 => some (c.standard, bs)
  | 1 => do
    let (symbol, r) ← takeNumber? 1 bs
    if c.greatest < symbol then none else some (.constant symbol, r)
  | 2 => StateTable.read? c.greatest c.logLimit bs
  | _ => before.map (·, bs)

/-- Reads the number whose code a state stands for. -/
def number? (c : NumberCode) (s : CodeState) (bits : Bits) : Option (Nat × Bits) :=
  let (least, width) := c.meaning s.symbol
  (Bits.takeHigh? width bits).map fun r => (least + r.1, r.2)

end NumberCode

/-! ## Reading -/

/-- Something for each of the three numbers of a sequence. -/
structure Triple (α : Type) where
  literalLength : α
  offset : α
  matchLength : α

namespace Sequence

def count? (bs : Bytes) : Option (Nat × Bytes) := do
  let (n, r) ← takeNumber? 1 bs
  if n < 128 then some (n, r)
  else if n < 255 then do
    let (low, r) ← takeNumber? 1 r
    some ((n - 128) * 256 + low, r)
  else do
    let (low, r) ← takeNumber? 2 r
    some (low + 0x7f00, r)

def tables? (before : Option (Triple StateTable)) (bs : Bytes) :
    Option (Triple StateTable × Bytes) := do
  let (modes, r) ← takeNumber? 1 bs
  if modes % 4 ≠ 0 then none
  else do
    let (literalLength, r) ←
      NumberCode.literalLength.table? (modes / 64) (before.map (·.literalLength)) r
    let (offset, r) ← NumberCode.offset.table? (modes / 16 % 4) (before.map (·.offset)) r
    let (matchLength, r) ←
      NumberCode.matchLength.table? (modes / 4 % 4) (before.map (·.matchLength)) r
    some (⟨literalLength, offset, matchLength⟩, r)

def start? (t : Triple StateTable) (bits : Bits) : Option (Triple CodeState × Bits) := do
  let (literalLength, bits) ← t.literalLength.start? bits
  let (offset, bits) ← t.offset.start? bits
  let (matchLength, bits) ← t.matchLength.start? bits
  some (⟨literalLength, offset, matchLength⟩, bits)

def next? (t : Triple StateTable) (s : Triple CodeState) (bits : Bits) :
    Option (Triple CodeState × Bits) := do
  let (literalLength, bits) ← t.literalLength.next? s.literalLength bits
  let (matchLength, bits) ← t.matchLength.next? s.matchLength bits
  let (offset, bits) ← t.offset.next? s.offset bits
  some (⟨literalLength, offset, matchLength⟩, bits)

/-- Reads the sequence whose codes three states stand for. -/
def ofStates? (s : Triple CodeState) (bits : Bits) : Option (Sequence × Bits) := do
  let (offsetValue, bits) ← NumberCode.offset.number? s.offset bits
  let (matchLength, bits) ← NumberCode.matchLength.number? s.matchLength bits
  let (literalLength, bits) ← NumberCode.literalLength.number? s.literalLength bits
  some (⟨literalLength, matchLength, offsetValue⟩, bits)

/-- Reads `n + 1` sequences, which must be all that the bits hold, and adds them to `read`. -/
def all? (t : Triple StateTable) : (n : Nat) → (read : Array Sequence) → Triple CodeState → Bits →
    Option (Array Sequence)
  | n, read, s, bits =>
    match ofStates? s bits with
    | none => none
    | some (sequence, bits) =>
      match n with
      | 0 => if bits.isEmpty then some (read.push sequence) else none
      | n + 1 =>
        match next? t s bits with
        | none => none
        | some (s, bits) => all? t n (read.push sequence) s bits
termination_by n => n

/-- Reads the sequences of a block from all that follows its literals.  The machines in force before
and after come with them. -/
def read? (before : Option (Triple StateTable)) (bs : Bytes) :
    Option (List Sequence × Option (Triple StateTable)) := do
  let (n, r) ← count? bs
  match n with
  | 0 => if r.isEmpty then some ([], before) else none
  | n + 1 => do
    let (t, r) ← tables? before r
    let bits ← Bits.backward? r
    let (s, bits) ← start? t bits
    let sequences ← all? t n #[] s bits
    some (sequences.toList, some t)

/-! ## Running -/

/-- Repeats `n` bytes that lie `distance` back. -/
def repeatBack (distance : Nat) : (n : Nat) → Array UInt8 → Array UInt8
  | 0, content => content
  | n + 1, content =>
    repeatBack distance n (content.push (content.getD (content.size - distance) 0))

/-- Runs sequences on content of at most `limit` bytes; gives the content, the latest distances and
the literals that are left. -/
def run? (limit : Nat) : List Sequence → Array UInt8 → Distances → Bytes →
    Option (Array UInt8 × Distances × Bytes)
  | [], content, distances, literals => some (content, distances, literals)
  | s :: ss, content, distances, literals => do
    let (taken, literals) ← takeBytes? s.literalLength literals
    let (distance, distances) ← distances.resolve? s
    let content := content ++ taken
    if content.size < distance || limit < content.size + s.matchLength then none
    else run? limit ss (repeatBack distance s.matchLength content) distances literals

end Sequence

end PageQueries.Frame
