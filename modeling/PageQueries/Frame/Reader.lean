import PageQueries.Codec
import PageQueries.Frame.Block
import PageQueries.Frame.Checksum

/-!
# Reading frames

`unwrap?` gives the content of the frame that bytes begin with.  The frame must state the size of
its content and needs no dictionary; its window may be of two gibibytes and more, up to what a
window of 31 bits can be.  What follows the frame is not looked at.

Frames are read by the rules of the format, to the last bit: a damaged frame is refused wherever it
breaks one of them.  Other decoders let some damage pass, so nothing that is proved of stores rests
on what becomes of such a frame; there, the codec may be any.
-/
namespace PageQueries.Frame

structure Header where
  /-- The size of the content. -/
  size : Nat
  /-- How far back repeated bytes may lie. -/
  window : Nat
  /-- The number of the dictionary that the content needs, or zero. -/
  dictionary : Nat
  checksum : Bool

namespace Header

/-- Reads the size of the window; nothing is read of a content that is one segment.  The size is a
power of two, of at most 31 bits, and some eighths of it. -/
def window? (single : Bool) (bs : Bytes) : Option (Option Nat × Bytes) :=
  if single then some (none, bs)
  else do
    let (w, r) ← takeNumber? 1 bs
    let log := w / 8 + 10
    if 31 < log then none
    else
      let unit := Nat.pow 2 log
      some (some (unit + unit / 8 * (w % 8)), r)

def size? (single : Bool) (code : Nat) (bs : Bytes) : Option (Nat × Bytes) :=
  match code with
  | 0 => if single then takeNumber? 1 bs else none
  | 1 => (takeNumber? 2 bs).map fun r => (r.1 + 256, r.2)
  | 2 => takeNumber? 4 bs
  | _ => takeNumber? 8 bs

/-- Reads a header behind the magic number.  A reserved bit must not be set. -/
def read? (bs : Bytes) : Option (Header × Bytes) := do
  let (d, r) ← takeNumber? 1 bs
  let single := d / 32 % 2 = 1
  let (window, r) ← window? single r
  let (dictionary, r) ← takeNumber? (if d % 4 = 3 then 4 else d % 4) r
  let (size, r) ← size? single (d / 64) r
  if d / 8 % 2 = 1 then none
  else some (⟨size, window.getD size, dictionary, d / 4 % 2 = 1⟩, r)

/-- The largest part of the content that a compressed block may hold. -/
def blockLimit (h : Header) : Nat := min h.window Frame.blockLimit

end Header

/-- The content of the frame that bytes begin with.  A frame without content may break off behind
its header, and may name a dictionary. -/
def unwrap? (bs : Bytes) : Option Bytes := do
  let (start, r) ← takeBytes? 4 bs
  if start ≠ magic then none
  else do
    let (h, r) ← Header.read? r
    if h.size = 0 then some []
    else if h.dictionary ≠ 0 then none
    else do
      let (d, r) ← Decoded.start.blocks? h.size h.blockLimit (r.length + 1) r
      let content := d.content.toList
      if content.length ≠ h.size then none
      else if h.checksum then do
        let (checksum, _) ← takeNumber? 4 r
        if checksum = Checksum.ofContent content then some content else none
      else some content

/-- Compression into frames. -/
def codec : Codec := ⟨wrap, unwrap?⟩

end PageQueries.Frame
