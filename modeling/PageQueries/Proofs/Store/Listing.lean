import PageQueries.Proofs.Store.Corruption
import PageQueries.Proofs.Text.Line

/-!
# Listing a folder with malformed files

A disk store lists the keys that its entries tell, file by file in the order of
their names, and removes the files that are no entries, each with a warning.
Two kinds of files do not let it come to an end, though they are malformed too:
an entry without a key, and a text that exceeds a limit of the JSON reader. The
request then fails at the first of them, when the corrupt files before it are
removed already.

`Sifts files keys bad` divides files into those that are well-formed entries,
with their keys, and all others. `ListsAll` is what a listing should be for
every folder; `Stops` says which files are in its way.

Results:
* `keysOf_append`: what a part of the files does that nothing stops.
* `keys_of_not_stops`, `keys_of_stops`: the listing if no file stops it, and
  where one stops it, with what was done before.
* `listsAll_iff`: the listing is as it should be exactly if no file stops it.
-/
namespace PageQueries

/-! ## Contents -/

namespace Entry

/-- The content is this text, or what the codec unwraps to it if the store compresses. -/
def Spells (codec : Option Codec) (content : Bytes) (t : Text) : Prop :=
  ∃ bytes, Codec.Unpacks codec content bytes ∧ Utf8.decode bytes = .ok t

/-- The content is an entry, and this stands under `key` in it, if anything does. -/
def Keyed (codec : Option Codec) (content : Bytes) (key : Option Json) : Prop :=
  ∃ t members queries, Spells codec content t ∧ Json.parse t = .ok (.object members) ∧
    members.lookup "queries".toList = some (.object queries) ∧ members.lookup "key".toList = key

/-- The content is a text that exceeds this limit of the JSON reader. -/
def ExceedsLimit (codec : Option Codec) (content : Bytes) (l : Json.Limit) : Prop :=
  ∃ t, Spells codec content t ∧ Json.parse t = .error (.limit l)

/-- The content ends a listing with an error: it is an entry without a key, or exceeds a limit. -/
inductive EndsListing (codec : Option Codec) (content : Bytes) : DiskStore.ListingError → Prop
  | keyless (h : Keyed codec content none) : EndsListing codec content .keyMissing
  | limit {l : Json.Limit} (h : ExceedsLimit codec content l) :
    EndsListing codec content (.limit l)

variable {codec : Option Codec} {content : Bytes} {t : Text}

theorem read_of_spells (h : Spells codec content t) : read codec content = decode t := by
  obtain ⟨bytes, hbytes, ht⟩ := h
  rw [← Codec.unpack?_eq_some_iff] at hbytes
  simp only [read, hbytes, ht]

theorem read_of_not_spells (h : ∀ t, ¬ Spells codec content t) :
    read codec content = .error .corrupt := by
  unfold read
  split
  · rfl
  · next bytes hbytes =>
    cases ht : Utf8.decode bytes with
    | ok t => exact absurd ⟨bytes, Codec.unpack?_eq_some_iff.mp hbytes, ht⟩ (h t)
    | error e => rfl

/-- Reading tells more than that a content is corrupt only of a text. -/
theorem exists_spells (h : read codec content ≠ .error .corrupt) :
    ∃ t, Spells codec content t :=
  Classical.byContradiction fun hs => h (read_of_not_spells (not_exists.mp hs))

theorem exists_read_keyed_iff {key : Option Json} :
    (∃ e, read codec content = .ok e ∧ e.key = key) ↔ Keyed codec content key := by
  constructor
  · rintro ⟨e, he, rfl⟩
    have hne : read codec content ≠ .error .corrupt := by simp [he]
    obtain ⟨t, ht⟩ := exists_spells hne
    rw [read_of_spells ht] at he
    obtain ⟨members, queries, hp, hq, rfl⟩ := decode_eq_ok_iff.mp he
    exact ⟨t, members, queries, ht, hp, hq, rfl⟩
  · rintro ⟨t, members, queries, ht, hp, hq, rfl⟩
    exact ⟨_, (read_of_spells ht).trans (decode_eq_ok_iff.mpr ⟨members, queries, hp, hq, rfl⟩), rfl⟩

theorem read_eq_limit_iff {l : Json.Limit} :
    read codec content = .error (.limit l) ↔ ExceedsLimit codec content l := by
  constructor
  · intro h
    have hne : read codec content ≠ .error .corrupt := by simp [h]
    obtain ⟨t, ht⟩ := exists_spells hne
    rw [read_of_spells ht] at h
    exact ⟨t, ht, decode_eq_limit_iff.mp h⟩
  · rintro ⟨t, ht, hl⟩
    exact (read_of_spells ht).trans (decode_eq_limit_iff.mpr hl)

/-- Content that neither tells a key nor ends the listing is corrupt. -/
theorem read_eq_corrupt (hk : ∀ key, ¬ Keyed codec content (some key))
    (he : ∀ e, ¬ EndsListing codec content e) : read codec content = .error .corrupt := by
  cases hr : read codec content with
  | ok entry =>
    have hkeyed := exists_read_keyed_iff.mp ⟨entry, hr, rfl⟩
    cases hkey : entry.key with
    | none => exact absurd (.keyless (hkey ▸ hkeyed)) (he .keyMissing)
    | some key => exact absurd (hkey ▸ hkeyed) (hk key)
  | error fault =>
    cases fault with
    | corrupt => rfl
    | limit l => exact absurd (.limit (read_eq_limit_iff.mp hr)) (he (.limit l))

end Entry

/-! ## Files -/

namespace DiskStore

/-- The file is a well-formed entry with this key. -/
def Tells (d : DiskStore) (file : Text) (key : Json) : Prop :=
  ∃ content, d.files.get? file = some content ∧ Entry.Keyed d.codec content (some key)

/-- The file ends a listing with this error. -/
def Stops (d : DiskStore) (file : Text) (e : ListingError) : Prop :=
  ∃ content, d.files.get? file = some content ∧ Entry.EndsListing d.codec content e

/-- Of the files, the well-formed entries have these keys, and the others are these files; each in
the order of the files. -/
inductive Sifts (d : DiskStore) :
    (files : List Text) → (keys : List Json) → (bad : List Text) → Prop
  | nil : Sifts d [] [] []
  | entry {file : Text} {key : Json} {files bad : List Text} {keys : List Json}
    (h : d.Tells file key) (hs : Sifts d files keys bad) : Sifts d (file :: files) (key :: keys) bad
  | other {file : Text} {files bad : List Text} {keys : List Json}
    (h : ∀ key, ¬ d.Tells file key) (hs : Sifts d files keys bad) :
    Sifts d (file :: files) keys (file :: bad)

/-- The store without some of its files. -/
def without (d : DiskStore) (files : List Text) : DiskStore :=
  { d with files := files.foldl OrderedMap.erase d.files }

/-- The listing as it should be: it gives the keys of all well-formed entries and removes the other
entry files, each with a warning, and a second listing gives the same and removes nothing. -/
def ListsAll (d : DiskStore) : Prop :=
  ∃ keys bad, d.Sifts d.entryFiles keys bad ∧
    d.keys = (.ok keys, d.without bad, bad.map .corruptEntry) ∧
    (d.without bad).keys = (.ok keys, d.without bad, [])

variable {d d' : DiskStore} {file : Text} {files bad : List Text} {key : Json} {keys : List Json}
  {e : ListingError}

theorem exists_sifts (d : DiskStore) (files : List Text) : ∃ keys bad, d.Sifts files keys bad := by
  induction files with
  | nil => exact ⟨[], [], .nil⟩
  | cons file files ih =>
    obtain ⟨keys, bad, hs⟩ := ih
    by_cases h : ∃ key, d.Tells file key
    · obtain ⟨key, h⟩ := h
      exact ⟨key :: keys, bad, .entry h hs⟩
    · exact ⟨keys, file :: bad, .other (not_exists.mp h) hs⟩

theorem Sifts.sublist (h : d.Sifts files keys bad) : bad.Sublist files := by
  induction h with
  | nil => exact List.Sublist.slnil
  | entry _ _ ih => exact ih.cons _
  | other _ _ ih => exact ih.cons_cons _

theorem Sifts.congr (ht : ∀ file ∈ files, ∀ key, d'.Tells file key ↔ d.Tells file key)
    (h : d.Sifts files keys bad) : d'.Sifts files keys bad := by
  induction h with
  | nil => exact .nil
  | entry h _ ih =>
    rw [List.forall_mem_cons] at ht
    exact .entry ((ht.1 _).mpr h) (ih ht.2)
  | other h _ ih =>
    rw [List.forall_mem_cons] at ht
    exact .other (fun key hkey => h key ((ht.1 key).mp hkey)) (ih ht.2)

/-! ## Fewer files -/

theorem get?_without (d : DiskStore) (files : List Text) (file : Text) (content : Bytes) :
    (d.without files).files.get? file = some content ↔
      d.files.get? file = some content ∧ file ∉ files :=
  OrderedMap.get?_foldl_erase_eq_some_iff files d.files file content

/-- What is said of a file's content is said of the same content in the smaller folder. -/
theorem exists_get?_without {P : Bytes → Prop} :
    (∃ content, (d.without files).files.get? file = some content ∧ P content) ↔
      (∃ content, d.files.get? file = some content ∧ P content) ∧ file ∉ files := by
  constructor
  · rintro ⟨content, hf, hp⟩
    rw [get?_without] at hf
    exact ⟨⟨content, hf.1, hp⟩, hf.2⟩
  · rintro ⟨⟨content, hf, hp⟩, hnot⟩
    exact ⟨content, (get?_without d files file content).mpr ⟨hf, hnot⟩, hp⟩

theorem tells_without_iff : (d.without files).Tells file key ↔ d.Tells file key ∧ file ∉ files :=
  exists_get?_without

theorem stops_without_iff : (d.without files).Stops file e ↔ d.Stops file e ∧ file ∉ files :=
  exists_get?_without

theorem nodup_entryFiles (d : DiskStore) : d.entryFiles.Nodup :=
  (List.mergeSort_perm _ _).nodup_iff.mpr (d.files.nodup.filter _)

theorem mem_entryFiles_iff : file ∈ d.entryFiles ↔
    (∃ content, d.files.get? file = some content) ∧ Text.isEnding entryEnding file := by
  rw [entryFiles, (List.mergeSort_perm _ _).mem_iff, List.mem_filter,
    ← OrderedMap.isSome_get?_iff, Option.isSome_iff_exists]

/-- The entry files of a folder without some files are the others, in the same order. -/
theorem entryFiles_without (d : DiskStore) (files : List Text) :
    (d.without files).entryFiles = d.entryFiles.filter (· ∉ files) := by
  refine List.Perm.eq_of_pairwise (fun _ _ _ _ => Text.le_antisymm) (pairwise_mergeSort_le _)
    ((pairwise_mergeSort_le _).filter _) ?_
  refine (List.perm_ext_iff_of_nodup (nodup_entryFiles _) ((nodup_entryFiles d).filter _)).mpr ?_
  intro file
  rw [List.mem_filter, mem_entryFiles_iff, mem_entryFiles_iff, decide_eq_true_eq]
  simp only [get?_without, exists_and_right, and_right_comm]

/-- The entries stay where all others are taken away. -/
theorem Sifts.without (hn : files.Nodup) (h : d.Sifts files keys bad) :
    (d.without bad).Sifts (files.filter (· ∉ bad)) keys [] := by
  have hd : d.Sifts (files.filter (· ∉ bad)) keys [] := by
    induction h with
    | nil => exact .nil
    | @entry file key files bad keys h hs ih =>
      rw [List.nodup_cons] at hn
      have hbad : file ∉ bad := fun hb => hn.1 (hs.sublist.subset hb)
      rw [List.filter_cons_of_pos (by simpa using hbad)]
      exact .entry h (ih hn.2)
    | @other file files bad keys _ _ ih =>
      rw [List.nodup_cons] at hn
      have hrest : files.filter (· ∉ file :: bad) = files.filter (· ∉ bad) := by
        refine List.filter_congr fun f hf => ?_
        have hne : f ≠ file := fun e => hn.1 (e ▸ hf)
        simp [hne]
      rw [List.filter_cons_of_neg (by simp), hrest]
      exact ih hn.2
  refine hd.congr fun file hf key => ?_
  have hbad : file ∉ bad := by simpa using (List.mem_filter.mp hf).2
  rw [tells_without_iff, and_iff_left hbad]

/-! ## One file -/

variable {rest : List Text}

theorem keysOf_of_tells (h : d.Tells file key) :
    d.keysOf (file :: rest) = ((d.keysOf rest).1.map (key :: ·), (d.keysOf rest).2) := by
  obtain ⟨content, hf, hkeyed⟩ := h
  obtain ⟨entry, hr, hkey⟩ := Entry.exists_read_keyed_iff.mpr hkeyed
  simp only [keysOf, hf, Option.getD_some, hr, hkey]

theorem keysOf_of_stops (h : d.Stops file e) : d.keysOf (file :: rest) = (.error e, d, []) := by
  obtain ⟨content, hf, hends⟩ := h
  cases hends with
  | keyless hkeyed =>
    obtain ⟨entry, hr, hkey⟩ := Entry.exists_read_keyed_iff.mpr hkeyed
    simp only [keysOf, hf, Option.getD_some, hr, hkey]
  | limit hl => simp only [keysOf, hf, Option.getD_some, Entry.read_eq_limit_iff.mpr hl]

theorem not_stops_of_keysOf (h : (d.keysOf [file]).1.isOk = true) (e : ListingError) :
    ¬ d.Stops file e := by
  intro hs
  rw [keysOf_of_stops hs] at h
  cases h

/-- A file that is no entry and stops nothing is taken away. -/
theorem keysOf_of_not_tells (hf : file ∈ d.entryFiles) (ht : ∀ key, ¬ d.Tells file key)
    (hs : ∀ e, ¬ d.Stops file e) :
    d.keysOf (file :: rest) = (((d.without [file]).keysOf rest).1,
      ((d.without [file]).keysOf rest).2.1,
      .corruptEntry file :: ((d.without [file]).keysOf rest).2.2) := by
  obtain ⟨content, hc⟩ := (mem_entryFiles_iff.mp hf).1
  have hr : Entry.read d.codec content = .error .corrupt :=
    Entry.read_eq_corrupt (fun key hk => ht key ⟨content, hc, hk⟩)
      fun e he => hs e ⟨content, hc, he⟩
  simp only [keysOf, hc, Option.getD_some, hr]
  rfl

/-! ## All files -/

/-- What a part of the files does that nothing stops. -/
theorem keysOf_append (h : d.Sifts files keys bad) (hf : ∀ file ∈ files, file ∈ d.entryFiles)
    (hn : files.Nodup) (hs : ∀ file ∈ files, ∀ e, ¬ d.Stops file e) :
    d.keysOf (files ++ rest) = (((d.without bad).keysOf rest).1.map (keys ++ ·),
      ((d.without bad).keysOf rest).2.1,
      bad.map .corruptEntry ++ ((d.without bad).keysOf rest).2.2) := by
  -- A file that is taken away changes the store that the remaining files are read from.
  induction files generalizing d keys bad with
  | nil =>
    cases h
    show d.keysOf rest = ((d.keysOf rest).1.map ([] ++ ·), (d.keysOf rest).2.1,
      (d.keysOf rest).2.2)
    obtain ⟨keys | e, d', warnings⟩ := d.keysOf rest <;> rfl
  | cons file files ih =>
    rw [List.forall_mem_cons] at hf hs
    rw [List.nodup_cons] at hn
    cases h with
    | @entry _ key _ _ keys ht hsift =>
      rw [List.cons_append, keysOf_of_tells ht, ih hsift hf.2 hn.2 hs.2]
      cases ((d.without bad).keysOf rest).1 <;> rfl
    | @other _ _ bad _ ht hsift =>
      have hne : ∀ f ∈ files, f ∉ [file] := fun f hm he => hn.1 (List.mem_singleton.mp he ▸ hm)
      have hsift' : (d.without [file]).Sifts files keys bad :=
        hsift.congr fun f hm key => by rw [tells_without_iff, and_iff_left (hne f hm)]
      have hf' : ∀ f ∈ files, f ∈ (d.without [file]).entryFiles := fun f hm => by
        rw [entryFiles_without]
        exact List.mem_filter.mpr ⟨hf.2 f hm, decide_eq_true (hne f hm)⟩
      have hs' : ∀ f ∈ files, ∀ e, ¬ (d.without [file]).Stops f e := fun f hm e he =>
        hs.2 f hm e (stops_without_iff.mp he).1
      rw [List.cons_append, keysOf_of_not_tells hf.1 ht hs.1, ih hsift' hf' hn.2 hs']
      rfl

/-- Without a file that stops it, the listing is as it should be. -/
theorem keys_of_not_stops (h : d.Sifts d.entryFiles keys bad)
    (hs : ∀ file ∈ d.entryFiles, ∀ e, ¬ d.Stops file e) :
    d.keys = (.ok keys, d.without bad, bad.map .corruptEntry) := by
  have hall : d.keysOf (d.entryFiles ++ []) = _ :=
    keysOf_append h (fun _ hf => hf) (nodup_entryFiles d) hs
  rw [List.append_nil] at hall
  rw [DiskStore.keys, hall]
  simp [keysOf, Except.map]

/-- Where the listing stops: at the first file that stops it, with the corrupt files before it taken
away. -/
theorem keys_of_stops {before after : List Text} (he : d.entryFiles = before ++ file :: after)
    (h : d.Sifts before keys bad) (hs : ∀ f ∈ before, ∀ e, ¬ d.Stops f e) (hfile : d.Stops file e) :
    d.keys = (.error e, d.without bad, bad.map .corruptEntry) := by
  have hn := nodup_entryFiles d
  rw [he, List.nodup_append] at hn
  have hnot : file ∉ bad := fun hb => hn.2.2 file (h.sublist.subset hb) file List.mem_cons_self rfl
  have hstop : (d.without bad).Stops file e := stops_without_iff.mpr ⟨hfile, hnot⟩
  have hf : ∀ f ∈ before, f ∈ d.entryFiles := fun f hm => he ▸ List.mem_append_left _ hm
  rw [DiskStore.keys, he, keysOf_append h hf hn.1 hs, keysOf_of_stops hstop]
  simp [Except.map]

/-- **When a folder can be listed.** Whatever the codec makes of the files, a listing is as it should
be exactly if no entry file stops it. Else it fails at the first file that does, with that file's
error, and the corrupt files before it are gone. -/
theorem listsAll_iff (d : DiskStore) :
    (d.ListsAll ↔ ∀ file ∈ d.entryFiles, ∀ e, ¬ d.Stops file e) ∧
    ∀ before file after e, d.entryFiles = before ++ file :: after →
      (∀ f ∈ before, ∀ e, ¬ d.Stops f e) → d.Stops file e →
      ∃ keys bad, d.Sifts before keys bad ∧
        d.keys = (.error e, d.without bad, bad.map .corruptEntry) := by
  have hfail : ∀ before file after e, d.entryFiles = before ++ file :: after →
      (∀ f ∈ before, ∀ e, ¬ d.Stops f e) → d.Stops file e →
      ∃ keys bad, d.Sifts before keys bad ∧
        d.keys = (.error e, d.without bad, bad.map .corruptEntry) := by
    intro before file after e he hs hfile
    obtain ⟨keys, bad, h⟩ := exists_sifts d before
    exact ⟨keys, bad, h, keys_of_stops he h hs hfile⟩
  refine ⟨⟨?_, fun hs => ?_⟩, hfail⟩
  · rintro ⟨keys, bad, -, hkeys, -⟩ file hf e hfile
    obtain ⟨before, file, after, he, hbefore, e, hfile⟩ :=
      Text.exists_first (P := fun f => ∃ e, d.Stops f e) ⟨file, hf, e, hfile⟩
    obtain ⟨_, _, -, herr⟩ :=
      hfail before file after e he (fun f hm => not_exists.mp (hbefore f hm)) hfile
    rw [hkeys] at herr
    cases congrArg Prod.fst herr
  · obtain ⟨keys, bad, h⟩ := exists_sifts d d.entryFiles
    have hrest := h.without (nodup_entryFiles d)
    rw [← entryFiles_without] at hrest
    have hs' : ∀ file ∈ (d.without bad).entryFiles, ∀ e, ¬ (d.without bad).Stops file e := by
      intro file hf e hfile
      rw [entryFiles_without] at hf
      exact hs file (List.mem_of_mem_filter hf) e (stops_without_iff.mp hfile).1
    exact ⟨keys, bad, h, keys_of_not_stops h hs, keys_of_not_stops hrest hs'⟩

/-- An entry that lost its key. -/
def keyless : Json := .object [("queries".toList, .object [])]

/-- A folder with a torn file, an entry, an entry that lost its key, and a file that is none. -/
def lostKey : DiskStore :=
  .ofFiles (.ofList
    [("a.queries".toList, Utf8.encode "torn".toList),
      ("b.queries".toList, Entry.write none "k".toList .empty),
      ("c.queries".toList, Utf8.encode keyless.render),
      ("notes.txt".toList, Utf8.encode "torn".toList)]) false

theorem entryFiles_lostKey :
    lostKey.entryFiles
      = ["a.queries".toList, "b.queries".toList] ++ "c.queries".toList :: [] := by
  have hfiles : lostKey.files.keys.filter (Text.isEnding entryEnding)
      = ["a.queries".toList, "b.queries".toList] ++ "c.queries".toList :: [] := by decide +kernel
  rw [entryFiles, hfiles]
  exact List.mergeSort_of_pairwise (by decide +kernel)

theorem not_stops_lostKey :
    ∀ f ∈ ["a.queries".toList, "b.queries".toList], ∀ e, ¬ lostKey.Stops f e := by
  intro f hf
  have hkeys : (lostKey.keysOf [f]).1.isOk = true := by
    simp only [List.mem_cons, List.not_mem_nil, or_false] at hf
    rcases hf with rfl | rfl <;> decide +kernel
  exact not_stops_of_keysOf hkeys

theorem stops_lostKey : lostKey.Stops "c.queries".toList .keyMissing := by
  have hempty : Json.Plain 1 (.object []) :=
    .object (by decide) List.nodup_nil fun _ hm => absurd hm List.not_mem_nil
  have hplain : Json.Plain 0 keyless :=
    .object (by decide) (List.nodup_singleton _) fun m hm =>
      (List.mem_singleton.mp hm).symm ▸ hempty
  have hparse : Json.parse keyless.render = .ok keyless := Json.parse_render hplain
  have hfile : lostKey.files.get? "c.queries".toList = some (Utf8.encode keyless.render) := by
    decide +kernel
  exact ⟨_, hfile, .keyless ⟨_, _, [], ⟨_, .plain _, Utf8.decode_encode _⟩, hparse, rfl, rfl⟩⟩

theorem listsAll_iff_lostKey :
    lostKey.entryFiles
      = ["a.queries".toList, "b.queries".toList] ++ "c.queries".toList :: [] ∧
    (∀ f ∈ ["a.queries".toList, "b.queries".toList], ∀ e, ¬ lostKey.Stops f e) ∧
    lostKey.Stops "c.queries".toList .keyMissing ∧
    ∃ keys bad, lostKey.Sifts ["a.queries".toList, "b.queries".toList] keys bad ∧
      lostKey.keys = (.error .keyMissing, lostKey.without bad, bad.map .corruptEntry) :=
  ⟨entryFiles_lostKey, not_stops_lostKey, stops_lostKey,
    (listsAll_iff lostKey).2 _ _ _ _ entryFiles_lostKey not_stops_lostKey stops_lostKey⟩

/-- The listing of that folder fails, though no file exceeds a limit. -/
theorem not_listsAll_lostKey : lostKey.keys.1 = .error .keyMissing ∧ ¬ lostKey.ListsAll := by
  obtain ⟨keys, bad, hs⟩ := exists_sifts lostKey ["a.queries".toList, "b.queries".toList]
  have hkeys : lostKey.keys.1 = .error .keyMissing := by
    rw [keys_of_stops entryFiles_lostKey hs not_stops_lostKey stops_lostKey]
  refine ⟨hkeys, ?_⟩
  rintro ⟨keys, bad, -, hall, -⟩
  rw [hall] at hkeys
  cases hkeys

end DiskStore

end PageQueries
