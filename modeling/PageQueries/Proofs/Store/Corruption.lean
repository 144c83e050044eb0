import PageQueries.Proofs.Json.Distinct
import PageQueries.Proofs.Store.Refinement

/-!
# Corrupt entries are contained

Anyone may write to the folder of a disk store, so a file may hold any bytes.
`Entry.Holds` says what it takes for a content to be an entry, stage by stage:
something that the codec unwraps if the store compresses, UTF-8, JSON, and an
object whose `queries` is an object. Whatever fails at whichever stage is
corrupt, except for a text that exceeds a limit of the JSON reader
(`Entry.Exceeds`). What a codec makes of a damaged file is up to the codec.

Results:
* `Entry.exists_read_iff`: what is read is what the content holds, in order.
* `DiskStore.get_of_holds`, `DiskStore.get_of_not_holds`: a request is either
  a hit that leaves the folder alone, or a miss that takes away the key's own
  file and warns of it.
* `DiskStore.Reachable.balanced`: in every state that a store gets into, every
  request was a hit or a miss.
* `DiskStore.corruption_contained`: all of it, with the files of other keys and
  with what is stored afterwards.
-/
namespace PageQueries

/-! ## Contents -/

/-- The content stands for these bytes: for itself, or for what the codec unwraps it to. -/
inductive Codec.Unpacks : Option Codec → (content bytes : Bytes) → Prop
  | plain (content : Bytes) : Unpacks none content content
  | wrapped {c : Codec} {content bytes : Bytes} (h : c.unwrap? content = some bytes) :
    Unpacks (some c) content bytes

theorem Codec.unpack?_eq_some_iff {codec : Option Codec} {content bytes : Bytes} :
    unpack? codec content = some bytes ↔ Unpacks codec content bytes := by
  cases codec with
  | none =>
    constructor
    · rintro ⟨⟩
      exact .plain content
    · rintro ⟨⟩
      rfl
  | some c =>
    constructor
    · exact .wrapped
    · rintro (_ | h)
      exact h

namespace Entry

/-- The content is an entry with these members as its queries. -/
def Holds (codec : Option Codec) (content : Bytes) (queries : List (Text × Json)) : Prop :=
  ∃ bytes t members, Codec.Unpacks codec content bytes ∧ Utf8.decode bytes = .ok t ∧
    Json.parse t = .ok (.object members) ∧
    members.lookup "queries".toList = some (.object queries)

/-- The content is a text that exceeds a limit of the JSON reader. -/
def Exceeds (codec : Option Codec) (content : Bytes) : Prop :=
  ∃ bytes t l, Codec.Unpacks codec content bytes ∧ Utf8.decode bytes = .ok t ∧
    Json.parse t = .error (.limit l)

variable {codec : Option Codec} {content : Bytes} {t : Text}

theorem decode_eq_ok_iff {e : Entry} :
    decode t = .ok e ↔
      ∃ members queries, Json.parse t = .ok (.object members) ∧
        members.lookup "queries".toList = some (.object queries) ∧
        e = ⟨members.lookup "key".toList, .ofList queries⟩ := by
  constructor
  · intro h
    unfold decode at h
    split at h
    · cases h
    · cases h
    · next v hv =>
      unfold ofJson? at h
      split at h
      · next e' he =>
        split at he
        · next queries hq =>
          cases he
          cases h
          cases v with
          | object members => exact ⟨members, queries, hv, hq, rfl⟩
          | _ => cases hq
        · cases he
      · cases h
  · rintro ⟨members, queries, hp, hq, rfl⟩
    simp only [decode, hp, ofJson?, Json.get?, hq]

/-- The queries of a parsed object keep their order, since their names are distinct. -/
theorem toList_ofList_of_parse {members queries : List (Text × Json)}
    (hp : Json.parse t = .ok (.object members))
    (hq : members.lookup "queries".toList = some (.object queries)) :
    (OrderedMap.ofList queries).toList = queries := by
  obtain ⟨before, after, rfl, -⟩ := List.lookup_eq_some_iff.mp hq
  have hqueries : (Json.object queries).Distinct := by
    cases Json.distinct_of_parse hp with
    | object _ hv => exact hv _ (List.mem_append_right _ List.mem_cons_self)
  cases hqueries with
  | object hn _ => exact Pairs.collapse_of_nodup hn

theorem exists_decode_iff {queries : List (Text × Json)} :
    (∃ e, decode t = .ok e ∧ e.queries.toList = queries) ↔
      ∃ members, Json.parse t = .ok (.object members) ∧
        members.lookup "queries".toList = some (.object queries) := by
  constructor
  · rintro ⟨e, hd, rfl⟩
    obtain ⟨members, queries, hp, hq, rfl⟩ := decode_eq_ok_iff.mp hd
    rw [toList_ofList_of_parse hp hq]
    exact ⟨members, hp, hq⟩
  · rintro ⟨members, hp, hq⟩
    exact ⟨_, decode_eq_ok_iff.mpr ⟨members, queries, hp, hq, rfl⟩, toList_ofList_of_parse hp hq⟩

/-- What is read is what the content holds, in order. -/
theorem exists_read_iff {queries : List (Text × Json)} :
    (∃ e, read codec content = .ok e ∧ e.queries.toList = queries) ↔
      Holds codec content queries := by
  unfold read Holds
  simp only [← Codec.unpack?_eq_some_iff]
  cases Codec.unpack? codec content with
  | none => simp
  | some bytes =>
    cases hu : Utf8.decode bytes with
    | error e => simp [hu]
    | ok t => simp [hu, exists_decode_iff]

theorem decode_eq_limit_iff {l : Json.Limit} :
    decode t = .error (.limit l) ↔ Json.parse t = .error (.limit l) := by
  unfold decode
  cases Json.parse t with
  | error e => cases e <;> simp
  | ok v => cases hv : ofJson? v <;> simp [hv]

/-- Reading runs into a limit only where the content does. -/
theorem exists_read_limit_iff :
    (∃ l, read codec content = .error (.limit l)) ↔ Exceeds codec content := by
  unfold read Exceeds
  simp only [← Codec.unpack?_eq_some_iff]
  cases Codec.unpack? codec content with
  | none => simp
  | some bytes =>
    cases hu : Utf8.decode bytes with
    | error e => simp [hu]
    | ok t => simp [hu, decode_eq_limit_iff]

end Entry

/-! ## Requests -/

namespace DiskStore

/-- The file of the key is an entry with these members as its queries. -/
def HoldsFor (d : DiskStore) (key : Text) (queries : List (Text × Json)) : Prop :=
  ∃ content, d.files.get? (fileOf key) = some content ∧ Entry.Holds d.codec content queries

/-- The file of the key, if there is one, exceeds no limit of the JSON reader. -/
def WithinLimits (d : DiskStore) (key : Text) : Prop :=
  ∀ content, d.files.get? (fileOf key) = some content → ¬ Entry.Exceeds d.codec content

variable {d : DiskStore} {key : Text}

theorem get_of_holds {queries : List (Text × Json)} (h : d.HoldsFor key queries) :
    ∃ m : OrderedMap Text Json, m.toList = queries ∧
      d.get key = (.ok (some m), { d with counters := d.counters.hit }, []) := by
  obtain ⟨content, hf, hc⟩ := h
  obtain ⟨e, he, hq⟩ := Entry.exists_read_iff.mpr hc
  exact ⟨e.queries, hq, by simp only [get, hf, he]⟩

theorem get_of_not_holds (hl : d.WithinLimits key) (h : ∀ queries, ¬ d.HoldsFor key queries) :
    d.get key = (.ok none,
      { d with files := d.files.erase (fileOf key), counters := d.counters.miss },
      if d.contains key then [.corruptEntry (fileOf key)] else []) := by
  unfold get contains OrderedMap.contains
  cases hf : d.files.get? (fileOf key) with
  | none => rw [OrderedMap.erase_of_get?_eq_none hf]; rfl
  | some content =>
    cases hr : Entry.read d.codec content with
    | ok e => exact absurd ⟨content, hf, Entry.exists_read_iff.mp ⟨e, hr, rfl⟩⟩ (h _)
    | error fault =>
      cases fault with
      | corrupt => simp only [hr, removeCorrupt]; rfl
      | limit l => exact absurd (Entry.exists_read_limit_iff.mp ⟨l, hr⟩) (hl content hf)

/-- Asking leaves the files of the other keys alone. -/
theorem get?_files_get (d : DiskStore) (key : Text) {file : Text} (h : file ≠ fileOf key) :
    (d.get key).2.1.files.get? file = d.files.get? file := by
  unfold get
  split
  · rfl
  · split
    · rfl
    · show (d.files.erase (fileOf key)).get? file = _
      rw [OrderedMap.get?_erase, if_neg h]
    · rfl

/-- Storing leaves the files of the other keys alone. -/
theorem get?_files_set (d : DiskStore) (key : Text) (queries : Queries) {file : Text}
    (h : file ≠ fileOf key) : (d.set key queries).files.get? file = d.files.get? file := by
  show (d.files.insert (fileOf key) _).get? file = _
  rw [OrderedMap.get?_insert, if_neg h]

/-- Where the file of a key holds an entry as it is written, the entry is got. -/
theorem get_of_written {queries : Queries}
    (hf : d.files.get? (fileOf key) = some (Entry.write d.codec key queries))
    (hp : Entry.Preserved d.codec key queries) :
    d.get key = (.ok (some (queries.map .text)), { d with counters := d.counters.hit }, []) := by
  have hr : Entry.read d.codec (Entry.write d.codec key queries)
      = .ok (Entry.ofQueries key queries) := Entry.read_write hp
  simp only [get, hf, hr, Entry.ofQueries]

/-- What is stored is got back, whatever the folder held. -/
theorem get_set (d : DiskStore) {queries : Queries}
    (h : Entry.Preserved d.codec key queries) :
    (d.set key queries).get key = (.ok (some (queries.map .text)),
      { d.set key queries with counters := d.counters.hit }, []) := by
  refine get_of_written ?_ h
  show (d.files.insert (fileOf key) _).get? (fileOf key) = _
  rw [OrderedMap.get?_insert, if_pos rfl]
  rfl

end DiskStore

/-! ## Counters -/

/-- Every request was answered, as a hit or as a miss. -/
def Counters.Balanced (c : Counters) : Prop := c.hits + c.misses = c.requests

namespace DiskStore

/-- The states of a store over a folder whose files anyone may write, as long as no request runs
into a limit of the JSON reader. -/
inductive Reachable : DiskStore → Prop
  | opened (files : Directory) (codec : Option Codec) : Reachable (.onFiles files codec)
  | written {d : DiskStore} (h : Reachable d) (files : Directory) :
      Reachable { d with files := files }
  | performed {d d' : DiskStore} (h : Reachable d) (r : Store.Request) {a : Store.Answer}
      (hl : ∀ key, r = .get key → d.WithinLimits key)
      (hr : (Store.disk d).perform r = (a, .disk d')) : Reachable d'

variable {d d' : DiskStore} {key : Text}

theorem balanced_get (h : d.counters.Balanced) (hl : d.WithinLimits key) :
    (d.get key).2.1.counters.Balanced := by
  unfold Counters.Balanced at h ⊢
  by_cases hq : ∃ queries, d.HoldsFor key queries
  · obtain ⟨queries, hq⟩ := hq
    obtain ⟨m, -, hget⟩ := get_of_holds hq
    rw [hget]
    simp only [Counters.hit]
    omega
  · rw [get_of_not_holds hl (not_exists.mp hq)]
    simp only [Counters.miss]
    omega

theorem counters_keys (d : DiskStore) : d.keys.2.1.counters = d.counters :=
  congrArg (fun x => x.2.1.counters) (Store.keysOf_counters d d.counters d.entryFiles)

/-- One request keeps the counters in step. -/
theorem balanced_perform (h : d.counters.Balanced) {r : Store.Request} {a : Store.Answer}
    (hl : ∀ key, r = .get key → d.WithinLimits key)
    (hr : (Store.disk d).perform r = (a, .disk d')) : d'.counters.Balanced := by
  cases r with
  | get key =>
    cases hr
    exact balanced_get h (hl key rfl)
  | keys =>
    cases hr
    show d.keys.2.1.counters.Balanced
    rw [counters_keys]
    exact h
  | _ => cases hr; exact h

theorem Reachable.balanced (h : Reachable d) : d.counters.Balanced := by
  induction h with
  | opened files codec => rfl
  | written _ _ ih => exact ih
  | performed _ r hl hr ih => exact balanced_perform ih hl hr

/-! ## Containment -/

/-- **Corruption is contained.** Whatever the folder of a store holds, and whatever the codec makes
of it, a request for a key is a hit with the queries that the key's file holds, or a miss that takes
the file away; the files of other keys stay, and what is stored next is got back. -/
theorem corruption_contained (d : DiskStore) (key : Text) :
    (d.WithinLimits key →
      (∀ queries, d.HoldsFor key queries → ∃ m : OrderedMap Text Json, m.toList = queries ∧
        d.get key = (.ok (some m), { d with counters := d.counters.hit }, [])) ∧
      ((∀ queries, ¬ d.HoldsFor key queries) → d.get key = (.ok none,
        { d with files := d.files.erase (fileOf key), counters := d.counters.miss },
        if d.contains key then [.corruptEntry (fileOf key)] else []))) ∧
    (∀ file, file ≠ fileOf key →
      (d.get key).2.1.files.get? file = d.files.get? file ∧
      ∀ queries, (d.set key queries).files.get? file = d.files.get? file) ∧
    (∀ queries, Entry.Preserved d.codec key queries →
      (d.set key queries).get key = (.ok (some (queries.map .text)),
        { d.set key queries with counters := d.counters.hit }, [])) ∧
    (d.Reachable → d.counters.Balanced) := by
  refine ⟨fun hl => ⟨fun queries h => get_of_holds h, get_of_not_holds hl⟩,
    fun file h => ⟨get?_files_get d key h, fun queries => get?_files_set d key queries h⟩,
    fun queries h => get_set d h, Reachable.balanced⟩

/-- A folder whose one file is cut off in the middle of its frame. -/
def cutOff : DiskStore := .ofFiles (.insert .empty (fileOf "a.md".toList) [0x28, 0xb5]) true

/-- A folder with the entry of one page. -/
def onePage : DiskStore :=
  (ofFiles .empty true).set "a.md".toList (.ofList [("a".toList, "select 1".toList)])

theorem corruption_contained_cutOff_onePage :
    (cutOff.WithinLimits "a.md".toList ∧ cutOff.Reachable ∧ cutOff.get "a.md".toList = (.ok none,
      { cutOff with files := cutOff.files.erase (fileOf "a.md".toList), counters := ⟨0, 1, 1⟩ },
      [.corruptEntry (fileOf "a.md".toList)])) ∧
    (onePage.WithinLimits "a.md".toList ∧ ∃ m : OrderedMap Text Json,
      m.toList = [("a".toList, .text "select 1".toList)] ∧
      onePage.get "a.md".toList = (.ok (some m), { onePage with counters := ⟨1, 0, 1⟩ }, [])) := by
  have hcut : cutOff.files.get? (fileOf "a.md".toList) = some [0x28, 0xb5] := by
    rw [cutOff, ofFiles, onFiles, OrderedMap.get?_insert, if_pos rfl]
  have hunwrap : ∀ bytes, ¬ Codec.Unpacks cutOff.codec [0x28, 0xb5] bytes := by
    rintro bytes (_ | h)
    have hnone : Frame.unwrap? [0x28, 0xb5] = none := by decide +kernel
    cases hnone.symm.trans h
  have hcutLimits : cutOff.WithinLimits "a.md".toList := by
    rintro content hf ⟨bytes, t, l, hb, -⟩
    cases hcut.symm.trans hf
    exact hunwrap bytes hb
  have hcutHolds : ∀ queries, ¬ cutOff.HoldsFor "a.md".toList queries := by
    rintro queries ⟨content, hf, bytes, t, members, hb, -⟩
    cases hcut.symm.trans hf
    exact hunwrap bytes hb
  have hread : Entry.read onePage.codec (Entry.write onePage.codec "a.md".toList
      (.ofList [("a".toList, "select 1".toList)])) = .ok (Entry.ofQueries _ _) :=
    Entry.read_write (Entry.preserved_frame (by decide +kernel))
  have hone : onePage.files.get? (fileOf "a.md".toList) = some (Entry.write onePage.codec
      "a.md".toList (.ofList [("a".toList, "select 1".toList)])) := by
    rw [onePage, set, OrderedMap.get?_insert, if_pos rfl]
  have honeLimits : onePage.WithinLimits "a.md".toList := by
    intro content hf hx
    cases hone.symm.trans hf
    obtain ⟨l, hl⟩ := Entry.exists_read_limit_iff.mpr hx
    cases hread.symm.trans hl
  have honeHolds : onePage.HoldsFor "a.md".toList [("a".toList, .text "select 1".toList)] :=
    ⟨_, hone, Entry.exists_read_iff.mp ⟨_, hread, rfl⟩⟩
  refine ⟨⟨hcutLimits, .opened _ _, ?_⟩, honeLimits, ?_⟩
  · rw [((corruption_contained cutOff _).1 hcutLimits).2 hcutHolds, contains,
      OrderedMap.contains, hcut]
    rfl
  · exact ((corruption_contained onePage _).1 honeLimits).1 _ honeHolds

end DiskStore

end PageQueries
