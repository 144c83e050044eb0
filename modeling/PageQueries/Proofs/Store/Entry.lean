import PageQueries.Proofs.Frame.RoundTrip
import PageQueries.Proofs.Json.Ascii
import PageQueries.Proofs.Json.RoundTrip
import PageQueries.Proofs.Text.Utf8
import PageQueries.Store.Disk

/-!
# Entries are read back

An entry is written as JSON and encoded in UTF-8; a store that compresses its
entries wraps it then. Each of these is undone by its reader, so the entry that
is read tells the key and the queries that were written, in their order
(`read_write`). Only the wrapping asks for anything, as the codec may be any: it
must give the entry back (`Preserved`).

`codec_lossless`: whatever characters a key and its queries hold, their text is
printable ASCII, it is read back in full, and no other key and queries have it.
-/
namespace PageQueries.Entry

/-- The entry can be stored: if it is compressed, its codec gives it back. -/
def Preserved (codec : Option Codec) (key : Text) (queries : Queries) : Prop :=
  ∀ c ∈ codec, c.Restores (Utf8.encode (encode key queries))

/-- The entry that is read where the queries of a key were written. -/
def ofQueries (key : Text) (queries : Queries) : Entry := ⟨some (.text key), queries.map .text⟩

/-- The members of an entry's object. -/
def members (key : Text) (queries : Queries) : List (Text × Json) :=
  [("key".toList, .text key), ("queries".toList, .object (queries.map Json.text).toList)]

/-- The object of a mapping of names to texts nests no deeper than its one level. -/
theorem plain_queries (queries : Queries) :
    Json.Plain 1 (.object (queries.map Json.text).toList) := by
  refine .object (by decide) (queries.map Json.text).nodup fun x hx => ?_
  obtain ⟨p, -, rfl⟩ := List.mem_map.mp hx
  exact .text _ _

theorem plain_members (key : Text) (queries : Queries) :
    Json.Plain 0 (.object (members key queries)) := by
  refine .object (by decide) (by simp [members]) fun x hx => ?_
  simp only [members, List.mem_cons, List.not_mem_nil, or_false] at hx
  rcases hx with rfl | rfl
  · exact .text _ _
  · exact plain_queries queries

/-- The text of an entry is parsed as its object. -/
theorem parse_encode (key : Text) (queries : Queries) :
    Json.parse (encode key queries) = .ok (.object (members key queries)) :=
  Json.parse_render (plain_members key queries)

theorem decode_encode (key : Text) (queries : Queries) :
    decode (encode key queries) = .ok (ofQueries key queries) := by
  have hv : ofJson? (.object (members key queries)) = some (ofQueries key queries) := by
    show some (Entry.mk _ _) = _
    rw [OrderedMap.ofList_toList]
    rfl
  rw [decode, parse_encode]
  simp only [hv]

/-- What is written is read, if the codec gives it back. -/
theorem read_write {codec : Option Codec} {key : Text} {queries : Queries}
    (h : Preserved codec key queries) :
    read codec (write codec key queries) = .ok (ofQueries key queries) := by
  have hbytes : Codec.unpack? codec (write codec key queries)
      = some (Utf8.encode (encode key queries)) := by
    cases codec with
    | none => rfl
    | some c => exact h c rfl
  simp only [read, hbytes, Utf8.decode_encode, decode_encode]

/-- Frames give back every entry whose size eight bytes can state. -/
theorem preserved_frame {key : Text} {queries : Queries}
    (h : (Utf8.encode (encode key queries)).length < 2 ^ 64) :
    Preserved (some Frame.codec) key queries := by
  rintro c ⟨⟩
  exact Frame.restores_of_lt h

/-! ## Nothing is lost -/

theorem map_text_inj {queries queries' : Queries}
    (h : queries.map Json.text = queries'.map Json.text) : queries = queries' := by
  refine OrderedMap.ext (List.map_injective_iff.mpr ?_ (congrArg OrderedMap.toList h))
  rintro ⟨name, t⟩ ⟨name', t'⟩ hp
  simpa using hp

theorem encode_inj {key key' : Text} {queries queries' : Queries}
    (h : encode key queries = encode key' queries') : key = key' ∧ queries = queries' := by
  have hread := decode_encode key queries
  rw [h, decode_encode key' queries'] at hread
  have hentry := (Except.ok.inj hread).symm
  have hkey : some (Json.text key) = some (Json.text key') := congrArg Entry.key hentry
  have hqueries : queries.map Json.text = queries'.map Json.text := congrArg Entry.queries hentry
  exact ⟨Json.text.inj (Option.some.inj hkey), map_text_inj hqueries⟩

/-- The text of an entry is printable ASCII, it is parsed as an object with the key and the pairs in
their order, the file that a store writes is read as these, and another key or other queries have
another text. Only a store that compresses asks for anything: for a codec that gives the entry
back. -/
theorem codec_lossless (key : Text) (queries : Queries) :
    (encode key queries).IsAscii ∧
    Json.parse (encode key queries) = .ok (.object
      [("key".toList, .text key),
        ("queries".toList, .object (queries.toList.map fun q => (q.1, .text q.2)))]) ∧
    (∀ s : DiskStore, (∀ c ∈ s.codec, c.Restores (Utf8.encode (encode key queries))) →
      ∃ content entry, (s.set key queries).files.get? (DiskStore.fileOf key) = some content ∧
        read s.codec content = .ok entry ∧ entry.key = some (.text key) ∧
        entry.queries.toList = queries.toList.map fun q => (q.1, .text q.2)) ∧
    ∀ key' queries', encode key queries = encode key' queries' →
      key = key' ∧ queries = queries' := by
  refine ⟨Json.isAscii_render _, parse_encode key queries, fun s hrestores => ?_,
    fun key' queries' h => encode_inj h⟩
  have hfile : (s.set key queries).files.get? (DiskStore.fileOf key)
      = some (write s.codec key queries) := by
    rw [DiskStore.set, OrderedMap.get?_insert, if_pos rfl]
  exact ⟨_, _, hfile, read_write hrestores, rfl, rfl⟩

example : encode "k".toList (.ofList [("a".toList, ['"', '\n', '\u2028', Char.ofNat 0x1f4c4])])
    = ("\x7b\"key\": \"k\", \"queries\": \x7b\"a\": "
      ++ "\"\\\"\\n\\u2028\\ud83d\\udcc4\"\x7d\x7d").toList := by decide +kernel

/-- Texts that are easily confused: an escape sequence and the character that it stands for, quotes,
a line separator and a character beyond the basic plane. -/
def lookalikes : Queries :=
  .ofList [("escaped".toList, "\\n".toList), ("plain".toList, "\n".toList),
    ("\"quoted\"".toList, "\u2028".toList), ("beyond".toList, ['\\', Char.ofNat 0x1f4c4])]

/-- The first two texts of `lookalikes` exchanged. -/
def lookalikesExchanged : Queries :=
  .ofList [("escaped".toList, "\n".toList), ("plain".toList, "\\n".toList),
    ("\"quoted\"".toList, "\u2028".toList), ("beyond".toList, ['\\', Char.ofNat 0x1f4c4])]

theorem codec_lossless_lookalikes :
    (encode "\"k\\".toList lookalikes).IsAscii ∧
    (∃ content entry,
      ((DiskStore.ofFiles .empty true).set "\"k\\".toList lookalikes).files.get?
          (DiskStore.fileOf "\"k\\".toList) = some content ∧
        read (some Frame.codec) content = .ok entry ∧
        entry.queries.toList = lookalikes.toList.map fun q => (q.1, .text q.2)) ∧
    encode "\"k\\".toList lookalikes ≠ encode "\"k\\".toList lookalikesExchanged := by
  obtain ⟨hascii, -, hfile, hinj⟩ := codec_lossless "\"k\\".toList lookalikes
  obtain ⟨content, entry, hcontent, hread, -, hqueries⟩ :=
    hfile (.ofFiles .empty true) (preserved_frame (by decide +kernel))
  refine ⟨hascii, ⟨content, entry, hcontent, hread, hqueries⟩, fun h => ?_⟩
  have hsame := congrArg OrderedMap.toList (hinj _ _ h).2
  exact absurd hsame (by decide +kernel)

end PageQueries.Entry
