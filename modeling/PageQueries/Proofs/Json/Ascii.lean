import PageQueries.Json.Printer
import PageQueries.Proofs.Text.Line

/-!
# JSON is written in printable ASCII

A file of JSON is read and edited by programs that disagree about control
characters, about line separators such as U+2028 and about everything beyond
ASCII. `escapeChar` writes such a character by its code units, so that none of
it stands in the text itself. `Text.IsAscii` is what is left: the characters
from the space to the tilde.

Result:
* `isAscii_render`: every value is written so on one line, its names and its
  numbers included.
-/
namespace PageQueries

/-! ## Printable ASCII -/

namespace Text

/-- Every character is printable ASCII: no control character, and none beyond the tilde. -/
def IsAscii (t : Text) : Prop := ∀ c ∈ t, 0x20 ≤ c.toNat ∧ c.toNat ≤ 0x7e

@[simp]
theorem isAscii_nil : IsAscii [] := fun _ h => absurd h List.not_mem_nil

@[simp]
theorem isAscii_cons {c : Char} {t : Text} :
    IsAscii (c :: t) ↔ (0x20 ≤ c.toNat ∧ c.toNat ≤ 0x7e) ∧ IsAscii t := by
  simp [IsAscii]

@[simp]
theorem isAscii_append {t u : Text} : IsAscii (t ++ u) ↔ IsAscii t ∧ IsAscii u :=
  List.forall_mem_append

theorem IsAscii.subset {t u : Text} (h : IsAscii u) (ht : t ⊆ u) : IsAscii t :=
  fun c hc => h c (ht hc)

theorem isAscii_replicate (n : Nat) {c : Char} (h : 0x20 ≤ c.toNat ∧ c.toNat ≤ 0x7e) :
    IsAscii (List.replicate n c) :=
  fun _ hd => List.eq_of_mem_replicate hd ▸ h

theorem isAscii_flatMap {α : Type} {f : α → Text} {as : List α} (h : ∀ a ∈ as, IsAscii (f a)) :
    IsAscii (as.flatMap f) := by
  intro c hc
  obtain ⟨a, ha, hca⟩ := List.mem_flatMap.mp hc
  exact h a ha c hca

theorem isAscii_join {separator : Text} {parts : List Text} (hs : IsAscii separator)
    (h : ∀ p ∈ parts, IsAscii p) : IsAscii (join separator parts) := by
  induction parts with
  | nil => exact isAscii_nil
  | cons p ps ih =>
    have hlater := ih fun q hq => h q (List.mem_cons_of_mem _ hq)
    have hp := h p List.mem_cons_self
    cases ps with
    | nil => simpa [join] using hp
    | cons q qs =>
      rw [join_cons_cons]
      simp only [isAscii_append]
      exact ⟨hp, hs, hlater⟩

theorem isAscii_ofNat (n : Nat) : IsAscii (ofNat n) := by
  intro c hc
  have hdigit := Nat.isDigit_of_mem_toDigits (by decide) (by decide) hc
  rw [Char.isDigit_iff_toNat] at hdigit
  have h0 : '0'.toNat = 0x30 := rfl
  have h9 : '9'.toNat = 0x39 := rfl
  omega

theorem isAscii_ofInt : ∀ n : Int, IsAscii (ofInt n)
  | .ofNat n => isAscii_ofNat n
  | .negSucc n => isAscii_cons.mpr ⟨by decide, isAscii_ofNat (n + 1)⟩

theorem hexDigit_isAscii :
    ∀ n : Nat, n < 16 → 0x20 ≤ (hexDigit n).toNat ∧ (hexDigit n).toNat ≤ 0x7e := by
  decide

theorem isAscii_hex (width n : Nat) : IsAscii (hex width n) := by
  induction width generalizing n with
  | zero => exact isAscii_nil
  | succ width ih =>
    rw [hex, isAscii_append, isAscii_cons]
    exact ⟨ih (n / 16), hexDigit_isAscii (n % 16) (by omega), isAscii_nil⟩

end Text

open Text (IsAscii)

/-! ## Numbers -/

namespace Binary64

theorem isAscii_spell (x : Decimal) : IsAscii (spell x) := by
  have hdigits := Text.isAscii_ofNat x.digits
  have htake (n : Nat) : IsAscii ((Text.ofNat x.digits).take n) :=
    hdigits.subset (List.take_subset n _)
  have hdrop (n : Nat) : IsAscii ((Text.ofNat x.digits).drop n) :=
    hdigits.subset (List.drop_subset n _)
  have hzeros (n : Nat) : IsAscii (List.replicate n '0') := Text.isAscii_replicate n (by decide)
  unfold spell
  dsimp only
  split
  · simp
  split
  -- positionally: zeros behind the point, zeros in front of it, or digits on both sides
  · split
    · simp [hdigits, hzeros]
    split
    · simp [hdigits, hzeros]
    · simp [htake, hdrop]
  -- with an exponent
  · have hplaces := Text.isAscii_ofNat (x.exponent + (Text.ofNat x.digits).length - 1).natAbs
    have htail : IsAscii (Text.ofNat x.digits).tail := List.drop_one ▸ hdrop 1
    split <;> split <;> simp [htake, htail, hzeros, hplaces]

theorem isAscii_spellFinite (negative : Bool) (m : Nat) (e : Int) :
    IsAscii (spellFinite negative m e) := by
  rw [spellFinite, Text.isAscii_append]
  refine ⟨?_, isAscii_spell _⟩
  cases negative <;> simp

end Binary64

/-! ## Values -/

namespace Json

theorem isAscii_renderFloat (x : Binary64) : IsAscii (renderFloat x) := by
  cases x with
  | finite negative m e => exact Binary64.isAscii_spellFinite negative m e
  | infinity negative => cases negative <;> simp [renderFloat]
  | nan => simp [renderFloat]

theorem isAscii_unitEscape (u : Nat) : IsAscii (unitEscape u) := by
  rw [unitEscape, Text.isAscii_append]
  exact ⟨by simp, Text.isAscii_hex 4 u⟩

theorem isAscii_escapeChar (c : Char) : IsAscii (escapeChar c) := by
  unfold escapeChar
  dsimp only
  -- the seven characters with a short escape of their own
  iterate 7
    split
    · simp
  split
  · rename_i h
    exact Text.isAscii_cons.mpr ⟨h, Text.isAscii_nil⟩
  split
  · exact isAscii_unitEscape _
  · exact Text.isAscii_append.mpr ⟨isAscii_unitEscape _, isAscii_unitEscape _⟩

theorem isAscii_renderText (t : Text) : IsAscii (renderText t) := by
  have hbody := Text.isAscii_flatMap fun c (_ : c ∈ t) => isAscii_escapeChar c
  simp [renderText, hbody]

theorem isAscii_comma : IsAscii ", ".toList := by simp

mutual

/-- A value on one line is printable ASCII. -/
theorem isAscii_render : ∀ v : Json, IsAscii (render v)
  | null => by simp [render]
  | bool true => by simp [render]
  | bool false => by simp [render]
  | int n => Text.isAscii_ofInt n
  | float x => isAscii_renderFloat x
  | text t => isAscii_renderText t
  | array items => by
    rw [render, Text.isAscii_append, Text.isAscii_cons]
    have hitems := Text.isAscii_join isAscii_comma (isAscii_renderItems items)
    exact ⟨⟨by decide, hitems⟩, by simp⟩
  | object members => by
    rw [render, Text.isAscii_append, Text.isAscii_cons]
    have hmembers := Text.isAscii_join isAscii_comma (isAscii_renderMembers members)
    exact ⟨⟨by decide, hmembers⟩, by simp⟩

theorem isAscii_renderItems : ∀ vs : List Json, ∀ t ∈ renderItems vs, IsAscii t
  | [] => fun _ h => absurd h List.not_mem_nil
  | v :: vs => by
    rw [renderItems, List.forall_mem_cons]
    exact ⟨isAscii_render v, isAscii_renderItems vs⟩

theorem isAscii_renderMembers :
    ∀ ms : List (Text × Json), ∀ t ∈ renderMembers ms, IsAscii t
  | [] => fun _ h => absurd h List.not_mem_nil
  | (name, v) :: ms => by
    rw [renderMembers, List.forall_mem_cons]
    refine ⟨?_, isAscii_renderMembers ms⟩
    simp [isAscii_renderText, isAscii_render v]

end

end Json

end PageQueries
