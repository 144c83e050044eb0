import Mathlib.Algebra.Group.Nat.Defs
import Mathlib.Data.List.Basic
import Mathlib.Data.Set.Function
import PageQueries.Digest
import PageQueries.Proofs.Text.Utf8

/-!
# Digests as texts

A digest is eight words of 32 bits, written in eight hexadecimal digits each.
Nothing is lost on the way from a text to the bytes that are digested, nor on
the way from the words to the digits. So two texts have one digest exactly if
SHA-256 gives their bytes one digest; whether different bytes can have one is
the only question left, and an assumption wherever it matters.

Results:
* `length_ofText`: every digest has 64 digits.
* `ofText_inj_of_injOn`: SHA-256 tells apart two texts if it tells apart their
  bytes.
-/
namespace PageQueries

namespace Text

theorem length_hex (width n : Nat) : (hex width n).length = width := by
  induction width generalizing n with
  | zero => rfl
  | succ width ih => rw [hex, List.length_append, ih]; rfl

theorem hexDigit_inj : ∀ a < 16, ∀ b < 16, hexDigit a = hexDigit b → a = b := by
  decide

/-- A number that fits is known by its digits. -/
theorem hex_inj {width a b : Nat} (ha : a < 16 ^ width) (hb : b < 16 ^ width)
    (h : hex width a = hex width b) : a = b := by
  induction width generalizing a b with
  | zero => omega
  | succ width ih =>
    obtain ⟨hfront, hdigit⟩ := List.append_singleton_inj.mp h
    have hquotient := ih (by omega) (by omega) hfront
    have hremainder := hexDigit_inj (a % 16) (by omega) (b % 16) (by omega) hdigit
    omega

end Text

namespace Digest

variable {s t : Text}

theorem length_ofText (t : Text) : (ofText t).length = 64 := by
  simp [ofText, sha256, Words.toList, Text.length_hex]

theorem length_sha256 (message : Bytes) : (sha256 message).length = 8 := rfl

theorem hex_word_injective : Function.Injective fun w : UInt32 => Text.hex 8 w.toNat := by
  intro v w h
  exact UInt32.toNat_inj.mp (Text.hex_inj v.toNat_lt w.toNat_lt h)

/-- Words in digits of one width can be taken apart again. -/
theorem flatMap_hex_inj {u v : List UInt32} (hlength : u.length = v.length)
    (h : (u.flatMap fun w => Text.hex 8 w.toNat) = v.flatMap fun w => Text.hex 8 w.toNat) :
    u = v := by
  refine hex_word_injective.list_map (List.eq_iff_flatten_eq.mpr ⟨?_, ?_⟩)
  · rwa [← List.flatMap_def, ← List.flatMap_def]
  · simp [Function.comp_def, Text.length_hex, hlength]

theorem ofText_eq_iff :
    ofText s = ofText t ↔ sha256 (Utf8.encode s) = sha256 (Utf8.encode t) := by
  constructor
  · intro h
    exact flatMap_hex_inj (by rw [length_sha256, length_sha256]) h
  · intro h
    rw [ofText, ofText, h]

theorem ofText_inj_of_injOn (h : Set.InjOn sha256 {Utf8.encode s, Utf8.encode t}) :
    ofText s = ofText t ↔ s = t := by
  rw [ofText_eq_iff, h.eq_iff (by simp) (by simp)]
  exact ⟨Utf8.encode_injective, congrArg Utf8.encode⟩

end Digest

end PageQueries
