import PageQueries.Proofs.OrderedMap
import PageQueries.Proofs.Store.Entry
import PageQueries.Proofs.Store.FileName

/-!
# A folder that mirrors entries

A disk store keeps a file for each entry that a memory store would keep, in the
order in which the files were first made. `Mirrors used entries d` says that the
folder of `d` holds the files of `entries` and no others. Which order the files
have is left open, since no answer of the store depends on it.

The keys are taken from a list `used` that a whole run draws on. No two of them
may have one digest (`Digest.Distinguishes`), and what is stored must survive
its codec (`Entry.Preserved`); nothing else is asked for.

Results, one for each operation:
* `Mirrors.set`, `Mirrors.discard`, `Mirrors.clear`, `Mirrors.of_same_files`:
  the folder goes on mirroring the entries that the memory store then has.
* `Mirrors.get_eq`, `Mirrors.contains_eq`, `Mirrors.size_eq`, `Mirrors.keys_eq`:
  the answers are those of the entries. Keys are listed in the order of their
  digests.
-/
namespace PageQueries

/-- No two of the keys have the same digest. -/
def Digest.Distinguishes (keys : List Text) : Prop :=
  ∀ k ∈ keys, ∀ k' ∈ keys, ofText k = ofText k' → k = k'

/-- Counts a request by whether it was answered. -/
def Counters.count (c : Counters) (answered : Bool) : Counters := if answered then c.hit else c.miss

namespace DiskStore

/-- The file of an entry. -/
def entryFile (codec : Option Codec) (e : Text × Queries) : Text × Bytes :=
  (fileOf e.1, Entry.write codec e.1 e.2)

/-- The folder holds the files of the entries, whose keys are among the used ones. -/
structure Mirrors (used : List Text) (entries : OrderedMap Text Queries) (d : DiskStore) :
    Prop where
  files : d.files.toList.Perm (entries.toList.map (entryFile d.codec))
  keys : ∀ e ∈ entries.toList, e.1 ∈ used
  preserved : ∀ e ∈ entries.toList, Entry.Preserved d.codec e.1 e.2

namespace Mirrors

variable {used : List Text} {entries : OrderedMap Text Queries} {d : DiskStore} {key : Text}

theorem empty (used : List Text) (codec : Option Codec) :
    Mirrors used .empty (.onFiles .empty codec) :=
  ⟨List.Perm.refl _, fun _ he => (List.not_mem_nil he).elim, fun _ he => (List.not_mem_nil he).elim⟩

/-- Neither the counters nor the store object matter, only the folder. -/
theorem of_same_files (h : Mirrors used entries d) {d' : DiskStore} (hf : d'.files = d.files)
    (hc : d'.codec = d.codec) : Mirrors used entries d' :=
  ⟨by rw [hf, hc]; exact h.files, h.keys, by rw [hc]; exact h.preserved⟩

/-! ## The file of a key -/

/-- An entry's file holds the entry. -/
theorem get?_file_of_mem (h : Mirrors used entries d) {queries : Queries}
    (he : (key, queries) ∈ entries.toList) :
    d.files.get? (fileOf key) = some (Entry.write d.codec key queries) := by
  rw [OrderedMap.get?_eq_some_iff, h.files.mem_iff]
  exact List.mem_map.mpr ⟨(key, queries), he, rfl⟩

/-- A used key has a file if and only if it has an entry. -/
theorem get?_file (hd : Digest.Distinguishes used) (h : Mirrors used entries d)
    (hk : key ∈ used) :
    d.files.get? (fileOf key) = (entries.get? key).map (Entry.write d.codec key) := by
  cases he : entries.get? key with
  | some queries => exact h.get?_file_of_mem ((OrderedMap.get?_eq_some_iff _ _ _).mp he)
  | none =>
    cases hf : d.files.get? (fileOf key) with
    | none => rfl
    | some content =>
      rw [OrderedMap.get?_eq_some_iff, h.files.mem_iff] at hf
      obtain ⟨⟨k, queries⟩, hmem, hfile⟩ := List.mem_map.mp hf
      have hdig : Digest.ofText k = Digest.ofText key := fileOf_inj.mp (congrArg Prod.fst hfile)
      obtain rfl : k = key := hd k (h.keys _ hmem) key hk hdig
      rw [(OrderedMap.get?_eq_some_iff _ _ _).mpr hmem] at he
      cases he

/-- Dropping the file of a key drops the key's entry. -/
theorem erase_file (hd : Digest.Distinguishes used) (h : Mirrors used entries d)
    (hk : key ∈ used) :
    (Pairs.erase (fileOf key) d.files.toList).Perm
      ((entries.erase key).toList.map (entryFile d.codec)) := by
  have hmap : Pairs.erase (fileOf key) (entries.toList.map (entryFile d.codec))
      = (entries.erase key).toList.map (entryFile d.codec) :=
    Pairs.erase_map fileOf (fun e => Entry.write d.codec e.1 e.2) key entries.toList
      fun e he heq => hd e.1 (h.keys e he) key hk (fileOf_inj.mp heq)
  rw [← hmap]
  exact h.files.filter _

/-! ## Operations that change the folder -/

theorem mem_of_mem_erase {e : Text × Queries} (he : e ∈ (entries.erase key).toList) :
    e ∈ entries.toList :=
  (List.mem_filter.mp he).1

theorem set (hd : Digest.Distinguishes used) (h : Mirrors used entries d) (hk : key ∈ used)
    {queries : Queries} (hp : Entry.Preserved d.codec key queries) :
    Mirrors used (entries.renew key queries) (d.set key queries) := by
  have hmem : ∀ e ∈ (entries.renew key queries).toList,
      e ∈ entries.toList ∨ e = (key, queries) := by
    intro e he
    rw [OrderedMap.toList_renew, List.mem_append, List.mem_singleton] at he
    exact he.imp_left mem_of_mem_erase
  refine ⟨?_, fun e he => ?_, fun e he => ?_⟩
  · show (Pairs.put (fileOf key) _ d.files.toList).Perm _
    rw [OrderedMap.toList_renew, List.map_append]
    refine (Pairs.put_perm d.files.nodup _).trans ?_
    refine ((h.erase_file hd hk).cons _).trans ?_
    exact (List.perm_append_singleton _ _).symm
  · rcases hmem e he with hold | rfl
    · exact h.keys e hold
    · exact hk
  · rcases hmem e he with hold | rfl
    · exact h.preserved e hold
    · exact hp

theorem discard (hd : Digest.Distinguishes used) (h : Mirrors used entries d) (hk : key ∈ used) :
    Mirrors used (entries.erase key) (d.discard key).2 :=
  ⟨h.erase_file hd hk, fun e he => h.keys e (mem_of_mem_erase he),
    fun e he => h.preserved e (mem_of_mem_erase he)⟩

end Mirrors

/-! ## The listing of the folder -/

namespace Mirrors

variable {used : List Text} {entries : OrderedMap Text Queries} {d : DiskStore} {key : Text}

/-- Whether the store lists the first entry before the second. -/
def precedes (e e' : Text × Queries) : Bool := Text.le (fileOf e.1) (fileOf e'.1)

/-- The entries in the order in which the store lists them. -/
def listing (entries : OrderedMap Text Queries) : List (Text × Queries) :=
  entries.toList.mergeSort precedes

theorem listing_perm (entries : OrderedMap Text Queries) :
    (listing entries).Perm entries.toList :=
  List.mergeSort_perm _ _

/-- All files of the folder are entry files. -/
theorem entryFiles_eq (h : Mirrors used entries d) :
    d.entryFiles = (listing entries).map fun e => fileOf e.1 := by
  have hkeys : d.files.keys.Perm (entries.toList.map fun e => fileOf e.1) := by
    have := h.files.map Prod.fst
    rwa [List.map_map] at this
  have hall : d.files.keys.filter (Text.isEnding entryEnding) = d.files.keys := by
    refine List.filter_eq_self.mpr fun file hf => ?_
    obtain ⟨e, -, rfl⟩ := List.mem_map.mp (hkeys.mem_iff.mp hf)
    exact isEnding_fileOf e.1
  have hmap : (listing entries).map (fun e => fileOf e.1)
      = (entries.toList.map fun e => fileOf e.1).mergeSort Text.le :=
    List.map_mergeSort (r := precedes) fun _ _ _ _ => rfl
  rw [entryFiles, hall, mergeSort_eq_of_perm hkeys, hmap]

theorem size_eq (h : Mirrors used entries d) : d.size = entries.size := by
  rw [size, h.entryFiles_eq, List.length_map]
  exact (listing_perm entries).length_eq

theorem clear (h : Mirrors used entries d) : Mirrors used .empty d.clear := by
  have hnil : d.clear.files.toList = [] := by
    refine List.eq_nil_iff_forall_not_mem.mpr fun p hp => ?_
    obtain ⟨hmem, hnot⟩ := (OrderedMap.mem_foldl_erase d.entryFiles d.files p).mp hp
    obtain ⟨e, he, rfl⟩ := List.mem_map.mp (h.files.mem_iff.mp hmem)
    rw [h.entryFiles_eq] at hnot
    exact hnot (List.mem_map.mpr ⟨e, (listing_perm entries).mem_iff.mpr he, rfl⟩)
  exact ⟨by rw [hnil]; exact List.Perm.refl _, fun _ he => (List.not_mem_nil he).elim,
    fun _ he => (List.not_mem_nil he).elim⟩

/-- Each file in turn tells the key of its entry. -/
theorem keysOf_eq (h : Mirrors used entries d) (es : List (Text × Queries))
    (hes : ∀ e ∈ es, e ∈ entries.toList) :
    d.keysOf (es.map fun e => fileOf e.1) = (.ok (es.map fun e => .text e.1), d, []) := by
  induction es with
  | nil => rfl
  | cons e es ih =>
    have he := hes e List.mem_cons_self
    have hread : Entry.read d.codec ((d.files.get? (fileOf e.1)).getD [])
        = .ok (Entry.ofQueries e.1 e.2) := by
      rw [h.get?_file_of_mem he]
      exact Entry.read_write (h.preserved e he)
    have hrest := ih fun e' he' => hes e' (List.mem_cons_of_mem _ he')
    simp only [List.map_cons, keysOf, hread, Entry.ofQueries, hrest]
    rfl

/-- The keys are those of the listing. -/
theorem keys_eq (h : Mirrors used entries d) :
    d.keys = (.ok ((listing entries).map fun e => .text e.1), d, []) := by
  rw [DiskStore.keys, h.entryFiles_eq]
  exact h.keysOf_eq _ fun e he => (listing_perm entries).mem_iff.mp he

/-- The listing goes by the digests of the keys. -/
theorem listing_pairwise (entries : OrderedMap Text Queries) :
    ((listing entries).map Prod.fst).Pairwise fun k k' =>
      Text.le (Digest.ofText k) (Digest.ofText k') = true := by
  have hs : (listing entries).Pairwise fun e e' => precedes e e' = true :=
    @List.pairwise_mergeSort _ precedes (fun _ _ _ => Text.le_trans)
      (fun _ _ => Text.le_total _ _) entries.toList
  rw [List.pairwise_map]
  exact hs.imp fun hle => by rwa [precedes, le_fileOf] at hle

/-! ## Requests for one entry -/

theorem get_eq (hd : Digest.Distinguishes used) (h : Mirrors used entries d) (hk : key ∈ used) :
    d.get key = (.ok ((entries.get? key).map (·.map .text)),
      { d with counters := d.counters.count (entries.get? key).isSome }, []) := by
  rw [DiskStore.get, h.get?_file hd hk]
  cases he : entries.get? key with
  | none => rfl
  | some queries =>
    have hp := h.preserved _ ((OrderedMap.get?_eq_some_iff _ _ _).mp he)
    simp only [Option.map_some, Entry.read_write hp]
    rfl

theorem contains_eq (hd : Digest.Distinguishes used) (h : Mirrors used entries d)
    (hk : key ∈ used) : d.contains key = entries.contains key := by
  rw [DiskStore.contains, OrderedMap.contains, h.get?_file hd hk, Option.isSome_map,
    OrderedMap.contains]

end Mirrors

end DiskStore

end PageQueries
