import PageQueries.Text.Quoted

/-!
# UTF-8

Texts are stored as UTF-8.  `encode` writes a character in one to four bytes; `decode` reads only
what `encode` writes and otherwise tells where the first fault lies and what it is.
-/
namespace PageQueries

/-- The content of a file. -/
abbrev Bytes := List UInt8

namespace Utf8

def byte (n : Nat) : UInt8 := UInt8.ofNat n

def encodeChar (c : Char) : Bytes :=
  let n := c.toNat
  if n < 0x80 then [byte n]
  else if n < 0x800 then [byte (0xc0 + n / 0x40), byte (0x80 + n % 0x40)]
  else if n < 0x10000 then
    [byte (0xe0 + n / 0x1000), byte (0x80 + n / 0x40 % 0x40), byte (0x80 + n % 0x40)]
  else
    [byte (0xf0 + n / 0x40000), byte (0x80 + n / 0x1000 % 0x40), byte (0x80 + n / 0x40 % 0x40),
      byte (0x80 + n % 0x40)]

def encode (t : Text) : Bytes := t.flatMap encodeChar

/-- What is wrong with a sequence of bytes. -/
inductive Fault where
  /-- The first byte begins no character. -/
  | invalidStart
  /-- A byte that should continue the character does not. -/
  | invalidContinuation
  /-- The bytes end within a character. -/
  | unexpectedEnd
  deriving DecidableEq, Repr

/-- A fault with the number of bytes that it covers. -/
abbrev Broken := Fault × Nat

/-- Reads `count` continuation bytes, of which the first lies between `low` and `high`.  `value`
is what has been read so far and `width` in how many bytes. -/
def continuation : (count : Nat) → (low high : Nat) → (value width : Nat) → Bytes →
    Except Broken (Nat × Bytes)
  | 0, _, _, value, _, bs => .ok (value, bs)
  | _ + 1, _, _, _, width, [] => .error (.unexpectedEnd, width)
  | count + 1, low, high, value, width, b :: bs =>
    if low ≤ b.toNat ∧ b.toNat ≤ high then
      continuation count 0x80 0xbf (value * 0x40 + (b.toNat - 0x80)) (width + 1) bs
    else .error (.invalidContinuation, width)

/-- Reads the character that begins with byte `b`.  The bounds on the second byte keep out
needlessly long forms, surrogates and numbers that are no code point. -/
def decodeChar (b : UInt8) (bs : Bytes) : Except Broken (Nat × Bytes) :=
  let n := b.toNat
  if n < 0x80 then .ok (n, bs)
  else if n < 0xc2 then .error (.invalidStart, 1)
  else if n < 0xe0 then continuation 1 0x80 0xbf (n - 0xc0) 1 bs
  else if n < 0xf0 then
    continuation 2 (if n = 0xe0 then 0xa0 else 0x80) (if n = 0xed then 0x9f else 0xbf) (n - 0xe0)
      1 bs
  else if n < 0xf5 then
    continuation 3 (if n = 0xf0 then 0x90 else 0x80) (if n = 0xf4 then 0x8f else 0xbf) (n - 0xf0)
      1 bs
  else .error (.invalidStart, 1)

theorem length_continuation {count low high value width : Nat} {bs : Bytes} {r : Nat × Bytes}
    (h : continuation count low high value width bs = .ok r) : r.2.length ≤ bs.length := by
  induction count generalizing low high value width bs with
  | zero =>
    simp only [continuation, Except.ok.injEq] at h
    simp [← h]
  | succ count ih =>
    cases bs with
    | nil => simp [continuation] at h
    | cons b bs =>
      simp only [continuation] at h
      split at h
      · exact Nat.le_succ_of_le (ih h)
      · simp at h

theorem length_decodeChar {b : UInt8} {bs : Bytes} {r : Nat × Bytes}
    (h : decodeChar b bs = .ok r) : r.2.length ≤ bs.length := by
  simp only [decodeChar] at h
  split at h
  · simp only [Except.ok.injEq] at h
    simp [← h]
  · repeat' split at h
    all_goals first
      | exact length_continuation h
      | simp at h

/-- Where and why bytes are not UTF-8. -/
structure DecodeError where
  fault : Fault
  /-- The offset of the first byte of the fault. -/
  start : Nat
  /-- The bytes of the fault. -/
  bytes : Bytes
  deriving Repr

/-- Reads the last bytes of a sequence that has `total` bytes. -/
def decodeOf (total : Nat) (bs : Bytes) : Except DecodeError Text :=
  match bs with
  | [] => .ok []
  | b :: bs =>
    match _h : decodeChar b bs with
    | .error (fault, width) => .error ⟨fault, total - (bs.length + 1), (b :: bs).take width⟩
    | .ok (n, rest) =>
      match decodeOf total rest with
      | .error e => .error e
      | .ok t => .ok (Char.ofNat n :: t)
termination_by bs.length
decreasing_by
  have : rest.length ≤ bs.length := length_decodeChar _h
  simp only [List.length_cons]
  omega

def Fault.words : Fault → Text
  | invalidStart => "invalid start byte".toList
  | invalidContinuation => "invalid continuation byte".toList
  | unexpectedEnd => "unexpected end of data".toList

/-- The sentence that tells a fault: its one byte, or where its bytes lie, and what it is. -/
def DecodeError.message (e : DecodeError) : Text :=
  let which := match e.bytes with
    | [b] => "byte 0x".toList ++ Text.hex 2 b.toNat ++ " in position ".toList ++ Text.ofNat e.start
    | bs => "bytes in position ".toList ++ Text.ofNat e.start ++ '-'
        :: Text.ofNat (e.start + bs.length - 1)
  "'utf-8' codec can't decode ".toList ++ which ++ ": ".toList ++ e.fault.words

/-- Reads bytes as a text. -/
def decode (bs : Bytes) : Except DecodeError Text := decodeOf bs.length bs

end Utf8

end PageQueries
