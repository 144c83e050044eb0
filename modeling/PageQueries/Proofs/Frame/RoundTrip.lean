import Mathlib.Algebra.Group.Nat.Defs
import PageQueries.Frame.Reader

/-!
# Content is got back from its frame

`wrap` writes a header that states the size of the content in eight bytes, and
then raw blocks of at most `blockLimit` bytes; `unwrap?` reads frames of any
kind. That content is got back is all that a store which compresses its entries
relies on (`Codec.Restores`).

`restores_of_lt`: content is got back if eight bytes can state its size. The
size is the only bound: content in any number of blocks is read.
-/
namespace PageQueries.Frame

/-! ## Numbers -/

theorem length_littleEndian (width n : Nat) : (littleEndian width n).length = width := by
  induction width generalizing n with
  | zero => rfl
  | succ width ih => rw [littleEndian, List.length_cons, ih]

theorem ofLittleEndian_littleEndian {width n : Nat} (h : n < 256 ^ width) :
    ofLittleEndian (littleEndian width n) = n := by
  induction width generalizing n with
  | zero => rw [Nat.pow_zero] at h; simp only [littleEndian, ofLittleEndian]; omega
  | succ width ih =>
    have hn : n / 256 < 256 ^ width := by
      rw [Nat.pow_succ] at h
      exact Nat.div_lt_of_lt_mul (by rw [Nat.mul_comm]; exact h)
    rw [littleEndian, ofLittleEndian, ih hn, UInt8.toNat_ofNat']
    omega

theorem takeBytes?_append (bs rest : Bytes) :
    takeBytes? bs.length (bs ++ rest) = some (bs, rest) := by
  rw [takeBytes?, if_pos (by simp), List.take_left, List.drop_left]

theorem takeNumber?_littleEndian {width n : Nat} (h : n < 256 ^ width) (rest : Bytes) :
    takeNumber? width (littleEndian width n ++ rest) = some (n, rest) := by
  have ht := takeBytes?_append (littleEndian width n) rest
  rw [length_littleEndian] at ht
  rw [takeNumber?, ht, Option.map_some, ofLittleEndian_littleEndian h]

/-! ## Raw blocks -/

/-- The number that stands before a raw block. -/
theorem takeNumber?_blockHeader {last : Bool} {size : Nat} (h : size ≤ blockLimit) (rest : Bytes) :
    takeNumber? 3 (blockHeader last 0 size ++ rest)
      = some ((if last then 1 else 0) + 8 * size, rest) := by
  have hn : (if last then 1 else 0) + 2 * 0 + 8 * size < 256 ^ 3 := by
    simp only [blockLimit] at h
    split <;> omega
  rw [blockHeader, takeNumber?_littleEndian hn, Nat.mul_zero, Nat.add_zero]

theorem size_append (a : Array UInt8) (bs : Bytes) : (a ++ bs).size = a.size + bs.length := by
  rw [← Array.length_toList, Array.toList_appendList, List.length_append, Array.length_toList]

theorem append?_eq {limit : Nat} {d : Decoded} {bs : Bytes}
    (h : d.content.size + bs.length ≤ limit) :
    d.append? limit bs = some { d with content := d.content ++ bs } := by
  rw [Decoded.append?, if_pos h]

/-- A raw block is read: the last one ends the content, any other leads to the next. -/
theorem blocks?_raw {limit bound n : Nat} {d : Decoded} {last : Bool} {bs : Bytes}
    (hs : bs.length ≤ blockLimit) (hl : d.content.size + bs.length ≤ limit) (rest : Bytes) :
    Decoded.blocks? limit bound (n + 1) d (blockHeader last 0 bs.length ++ (bs ++ rest))
      = if last then some ({ d with content := d.content ++ bs }, rest)
        else Decoded.blocks? limit bound n { d with content := d.content ++ bs } rest := by
  rw [Decoded.blocks?, takeNumber?_blockHeader hs]
  have hkind : ((if last = true then 1 else 0) + 8 * bs.length) / 2 % 4 = 0 := by split <;> omega
  have hsize : ((if last = true then 1 else 0) + 8 * bs.length) / 8 = bs.length := by
    split <;> omega
  simp only [hkind, hsize, Decoded.block?, takeBytes?_append, Option.bind_eq_bind, Option.bind_some,
    append?_eq hl, Option.map_some]
  cases last
  · rw [if_neg (by simp; omega), if_neg (by simp)]
  · rw [if_pos (by simp; omega), if_pos rfl]

/-- The blocks of some content are read up to and with the last one. -/
theorem blocks?_rawBlocks {limit bound : Nat} {n fuel : Nat} {d : Decoded} {bs : Bytes}
    (hn : bs.length ≤ (n + 1) * blockLimit) (hf : n < fuel)
    (hl : d.content.size + bs.length ≤ limit) (rest : Bytes) :
    ∃ d', Decoded.blocks? limit bound fuel d (rawBlocks n bs ++ rest) = some (d', rest) ∧
      d'.content.toList = d.content.toList ++ bs := by
  induction n generalizing fuel d bs with
  | zero =>
    obtain ⟨fuel, rfl⟩ : ∃ k, fuel = k + 1 := ⟨fuel - 1, by omega⟩
    refine ⟨{ d with content := d.content ++ bs }, ?_, by simp⟩
    rw [rawBlocks, List.append_assoc, blocks?_raw (by omega) hl, if_pos rfl]
  | succ n ih =>
    obtain ⟨fuel, rfl⟩ : ∃ k, fuel = k + 1 := ⟨fuel - 1, by omega⟩
    rw [rawBlocks]
    split
    · rename_i hs
      refine ⟨{ d with content := d.content ++ bs }, ?_, by simp⟩
      rw [List.append_assoc, blocks?_raw hs hl, if_pos rfl]
    · rename_i hs
      have htake : (bs.take blockLimit).length = blockLimit := by
        rw [List.length_take]; omega
      have hdrop : (bs.drop blockLimit).length = bs.length - blockLimit := List.length_drop
      have hcut := Nat.add_mul n 1 blockLimit
      obtain ⟨d', h1, h2⟩ := @ih fuel { d with content := d.content ++ bs.take blockLimit }
        (bs.drop blockLimit) (by rw [hdrop]; rw [Nat.add_mul] at hn; omega) (by omega)
        (by simp only [size_append, htake, hdrop]; omega)
      refine ⟨d', ?_, ?_⟩
      · have hb := @blocks?_raw limit bound fuel d false (bs.take blockLimit) (by omega)
          (by rw [htake]; omega) (rawBlocks n (bs.drop blockLimit) ++ rest)
        rw [htake] at hb
        rw [List.append_assoc, List.append_assoc, hb, if_neg (by simp)]
        exact h1
      · rw [h2]
        simp only [Array.toList_appendList, List.append_assoc, List.take_append_drop]

theorem length_le_rawBlocks (n : Nat) (bs : Bytes) : bs.length ≤ (rawBlocks n bs).length := by
  induction n generalizing bs with
  | zero => rw [rawBlocks, List.length_append]; omega
  | succ n ih =>
    have := ih (bs.drop blockLimit)
    rw [rawBlocks]
    split
    · rw [List.length_append]; omega
    · simp only [List.length_append, List.length_take, List.length_drop] at this ⊢
      omega

/-! ## Frames -/

/-- The header that `wrap` writes: one segment, its size, no dictionary, no checksum. -/
theorem read?_header {size : Nat} (h : size < 2 ^ 64) (rest : Bytes) :
    Header.read? (0xe0 :: (littleEndian 8 size ++ rest)) = some (⟨size, size, 0, false⟩, rest) := by
  have h1 : takeNumber? 1 (0xe0 :: (littleEndian 8 size ++ rest))
      = some (224, littleEndian 8 size ++ rest) := rfl
  have h0 : takeNumber? 0 (littleEndian 8 size ++ rest)
      = some (0, littleEndian 8 size ++ rest) := rfl
  have h8 : takeNumber? 8 (littleEndian 8 size ++ rest) = some (size, rest) :=
    takeNumber?_littleEndian (show size < 256 ^ 8 by omega) rest
  rw [Header.read?, h1, Option.bind_eq_bind, Option.bind_some]
  simp only [Header.window?, Header.size?]
  simp [h0, h8]

/-- A frame with the header of `wrap` is read if its blocks are. -/
theorem unwrap?_of_blocks? {content blocks : Bytes} {d : Decoded} (h : content.length < 2 ^ 64)
    (hb : Decoded.blocks? content.length (min content.length blockLimit) (blocks.length + 1) .start
      blocks = some (d, [])) (hd : d.content.toList = content) :
    unwrap? (magic ++ 0xe0 :: (littleEndian 8 content.length ++ blocks)) = some content := by
  have hm : takeBytes? 4 (magic ++ 0xe0 :: (littleEndian 8 content.length ++ blocks))
      = some (magic, 0xe0 :: (littleEndian 8 content.length ++ blocks)) := takeBytes?_append magic _
  have hl : Header.blockLimit ⟨content.length, content.length, 0, false⟩
      = min content.length blockLimit := rfl
  rw [unwrap?, hm, Option.bind_eq_bind, Option.bind_some]
  simp only
  rw [if_neg (fun h => h rfl), read?_header h, Option.bind_eq_bind, Option.bind_some]
  simp only
  by_cases h0 : content.length = 0
  · rw [if_pos h0, List.length_eq_zero_iff.mp h0]
  · rw [if_neg h0, if_neg (fun h => h rfl), hl, hb, Option.bind_eq_bind, Option.bind_some]
    simp [hd]

/-- Content whose size eight bytes can state is got back from its frame. -/
theorem restores_of_lt {content : Bytes} (h : content.length < 2 ^ 64) :
    codec.Restores content := by
  have hn : content.length ≤ (content.length / blockLimit + 1) * blockLimit := by
    simp only [blockLimit]; omega
  have hf := length_le_rawBlocks (content.length / blockLimit) content
  have hdiv := Nat.div_le_self content.length blockLimit
  obtain ⟨d, hb, hd⟩ := @blocks?_rawBlocks content.length (min content.length blockLimit)
    (content.length / blockLimit) ((rawBlocks (content.length / blockLimit) content).length + 1)
    .start content hn (by omega) (by simp [Decoded.start]) []
  rw [List.append_nil] at hb
  have hw : wrap content = magic ++ 0xe0 :: (littleEndian 8 content.length
      ++ rawBlocks (content.length / blockLimit) content) := by
    simp [wrap]
  show unwrap? (wrap content) = some content
  rw [hw]
  exact unwrap?_of_blocks? h hb (by simpa [Decoded.start] using hd)

end PageQueries.Frame
