import PageQueries.Text.Utf8

/-!
# Codecs

A disk store may compress what it keeps.  How it does so is not its concern: it relies on nothing
but that content which was wrapped is got back.  Content that was not, such as a damaged file, may
be refused, or be read as anything; on this decoders differ.
-/
namespace PageQueries

/-- A way to compress content and to read it again. -/
structure Codec where
  wrap : Bytes → Bytes
  unwrap? : Bytes → Option Bytes

namespace Codec

/-- Content as it is kept with a codec, or without one. -/
def pack (codec : Option Codec) (content : Bytes) : Bytes :=
  match codec with
  | some c => c.wrap content
  | none => content

/-- The content that is kept with a codec, or without one. -/
def unpack? (codec : Option Codec) (kept : Bytes) : Option Bytes :=
  match codec with
  | some c => c.unwrap? kept
  | none => some kept

/-- The content is got back. -/
def Restores (c : Codec) (content : Bytes) : Prop := c.unwrap? (c.wrap content) = some content

end Codec

end PageQueries
