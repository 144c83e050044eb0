import Mathlib.Data.List.Forall2
import PageQueries.Proofs.Store.Mirror
import PageQueries.Store.Basic

/-!
# The disk store refines the memory store

A caller cannot tell the two kinds of store apart. `Store.answers` runs a list
of steps, each a request or a reopening, and collects the answers. Reopening a
disk store is making a new one over the same folder. A memory store cannot be
reopened; here it keeps its entries and restarts its counters, which is what
the disk store is held to.

Results:
* `answers_agree`: from empty stores, both kinds give agreeing answers to every
  list of steps. Agreeing is being equal, except for the keys: the disk store
  lists the same keys in the order of their digests.
* `answers_reopened`: over any folder, reopenings change no answer of a disk
  store but the counters of its statistics.
* `disk_refines_memory`: both together.
-/
namespace PageQueries.Store

open DiskStore.Mirrors (listing listing_perm listing_pairwise)

/-- What a store is asked. -/
inductive Request where
  | set (key : Text) (queries : Queries)
  | get (key : Text)
  | discard (key : Text)
  | contains (key : Text)
  | size
  | clear
  | keys
  | stats

/-- The statistics of a store. -/
structure Stats where
  counters : Counters
  hitRate : Binary64
  entries : Nat

/-- What a store answers, with its warnings. -/
inductive Answer where
  | done
  | queries (found : Except Json.Limit (Option (OrderedMap Text Json))) (warnings : List Warning)
  | truth (b : Bool)
  | number (n : Nat)
  | keys (found : Except DiskStore.ListingError (List Json)) (warnings : List Warning)
  | stats (s : Stats)

/-- The statistics as they are now. -/
def stats (s : Store) : Stats := ⟨s.counters, s.counters.hitRate, s.size⟩

/-- The answer to a request, and the store after it. -/
def perform (s : Store) : Request → Answer × Store
  | .set key queries => (.done, s.set key queries)
  | .get key => (.queries (s.get key).1 (s.get key).2.2, (s.get key).2.1)
  | .discard key => (.truth (s.discard key).1, (s.discard key).2)
  | .contains key => (.truth (s.contains key), s)
  | .size => (.number s.size, s)
  | .clear => (.done, s.clear)
  | .keys => (.keys s.keys.1 s.keys.2.2, s.keys.2.1)
  | .stats => (.stats s.stats, s)

/-- A store over what this one keeps. Its counters start anew. -/
def reopened : Store → Store
  | memory m => memory { m with counters := .zero }
  | disk d => disk (.onFiles d.files d.codec)

/-- A step of a run. -/
inductive Step where
  | request (r : Request)
  | reopen

/-- The answers to the requests of a run. -/
def answers (s : Store) : List Step → List Answer
  | [] => []
  | .request r :: steps => (s.perform r).1 :: (s.perform r).2.answers steps
  | .reopen :: steps => s.reopened.answers steps

/-- A run without its reopenings. -/
def requests (steps : List Step) : List Step :=
  steps.filter fun
    | .request _ => true
    | .reopen => false

/-- The key that a request is about. -/
def Request.key? : Request → Option Text
  | .set key _ | .get key | .discard key | .contains key => some key
  | .size | .clear | .keys | .stats => none

@[inherit_doc Request.key?]
def Step.key? : Step → Option Text
  | .request r => r.key?
  | .reopen => none

/-- The keys that a run is about. -/
def usedKeys (steps : List Step) : List Text := steps.filterMap Step.key?

/-- What a request stores survives its way into a file. -/
def Request.Preserved (codec : Option Codec) : Request → Prop
  | .set key queries => Entry.Preserved codec key queries
  | _ => True

/-- Agreement of a memory store's answer with a disk store's: the same keys, the disk store's in
the order of their digests; in everything else equality. -/
def Answer.Agrees : Answer → Answer → Prop
  | .keys found warnings, .keys found' warnings' =>
    ∃ ks ks' : List Text, found = .ok (ks.map .text) ∧ found' = .ok (ks'.map .text) ∧
      ks'.Perm ks ∧
      (ks'.Pairwise fun k k' => Text.le (Digest.ofText k) (Digest.ofText k') = true) ∧
      warnings = warnings'
  | a, a' => a = a'

/-- An answer without what its statistics tell of the counters. -/
def Answer.dropCounters : Answer → Answer
  | .stats s => .stats { s with counters := .zero, hitRate := Counters.zero.hitRate }
  | a => a

/-! ## Memory against disk -/

/-- A memory store and a disk store in step with each other. -/
structure Matches (used : List Text) (codec : Option Codec) (m : MemoryStore) (d : DiskStore) :
    Prop where
  mirrors : d.Mirrors used m.entries
  codec : d.codec = codec
  counters : d.counters = m.counters

theorem matches_empty (used : List Text) (codec : Option Codec) :
    Matches used codec .new (.onFiles .empty codec) :=
  ⟨.empty used codec, rfl, rfl⟩

theorem matches_reopened {used : List Text} {codec : Option Codec} {m : MemoryStore} {d : DiskStore}
    (h : Matches used codec m d) :
    Matches used codec { m with counters := .zero } (.onFiles d.files d.codec) :=
  ⟨h.mirrors.of_same_files rfl rfl, h.codec, rfl⟩

theorem memory_get (m : MemoryStore) (key : Text) :
    m.get key = (m.entries.get? key,
      { m with counters := m.counters.count (m.entries.get? key).isSome }) := by
  unfold MemoryStore.get
  cases m.entries.get? key <;> rfl

/-- One request: the answers agree and the stores stay in step. -/
theorem perform_agrees {used : List Text} {codec : Option Codec} {m : MemoryStore} {d : DiskStore}
    (hd : Digest.Distinguishes used) (h : Matches used codec m d) (r : Request)
    (hk : ∀ key, r.key? = some key → key ∈ used) (hp : r.Preserved codec) :
    ∃ a a' m' d', (memory m).perform r = (a, memory m') ∧ (disk d).perform r = (a', disk d') ∧
      Answer.Agrees a a' ∧ Matches used codec m' d' := by
  obtain ⟨hm, hc, hn⟩ := h
  cases r with
  | set key queries =>
    have hp' : Entry.Preserved d.codec key queries := by rw [hc]; exact hp
    exact ⟨_, _, _, _, rfl, rfl, rfl, hm.set hd (hk key rfl) hp', hc, hn⟩
  | get key =>
    have hmem : (memory m).perform (.get key)
        = (.queries (.ok ((m.entries.get? key).map (·.map .text))) [],
          memory { m with counters := m.counters.count (m.entries.get? key).isSome }) := by
      simp only [perform, Store.get, memory_get]
    have hdisk : (disk d).perform (.get key)
        = (.queries (.ok ((m.entries.get? key).map (·.map .text))) [],
          disk { d with counters := d.counters.count (m.entries.get? key).isSome }) := by
      simp only [perform, Store.get, hm.get_eq hd (hk key rfl)]
    refine ⟨_, _, _, _, hmem, hdisk, rfl, hm.of_same_files rfl rfl, hc, ?_⟩
    show d.counters.count _ = m.counters.count _
    rw [hn]
  | discard key =>
    refine ⟨_, _, _, _, rfl, rfl, ?_, hm.discard hd (hk key rfl), hc, hn⟩
    exact congrArg Answer.truth (hm.contains_eq hd (hk key rfl)).symm
  | contains key =>
    refine ⟨_, _, _, _, rfl, rfl, ?_, hm, hc, hn⟩
    exact congrArg Answer.truth (hm.contains_eq hd (hk key rfl)).symm
  | size =>
    refine ⟨_, _, _, _, rfl, rfl, ?_, hm, hc, hn⟩
    exact congrArg Answer.number hm.size_eq.symm
  | clear => exact ⟨_, _, _, _, rfl, rfl, rfl, hm.clear, hc, hn⟩
  | keys =>
    have hdisk : (disk d).perform .keys
        = (.keys (.ok (((listing m.entries).map Prod.fst).map .text)) [], disk d) := by
      simp only [perform, Store.keys, hm.keys_eq, List.map_map, Function.comp_def]
    exact ⟨_, _, _, _, rfl, hdisk,
      ⟨_, _, rfl, rfl, (listing_perm m.entries).map _, listing_pairwise m.entries, rfl⟩,
      hm, hc, hn⟩
  | stats =>
    refine ⟨_, _, _, _, rfl, rfl, ?_, hm, hc, hn⟩
    show Answer.stats ⟨m.counters, m.counters.hitRate, m.size⟩
      = Answer.stats ⟨d.counters, d.counters.hitRate, d.size⟩
    rw [hn, hm.size_eq]
    rfl

/-- Whole runs of stores that are in step. -/
theorem answers_agree {used : List Text} {codec : Option Codec} {m : MemoryStore} {d : DiskStore}
    (hd : Digest.Distinguishes used) (h : Matches used codec m d) (steps : List Step)
    (hk : ∀ step ∈ steps, ∀ key, step.key? = some key → key ∈ used)
    (hp : ∀ r, Step.request r ∈ steps → r.Preserved codec) :
    List.Forall₂ Answer.Agrees ((memory m).answers steps) ((disk d).answers steps) := by
  induction steps generalizing m d with
  | nil => exact .nil
  | cons step steps ih =>
    have hk' : ∀ step ∈ steps, ∀ key, step.key? = some key → key ∈ used :=
      fun s hs => hk s (List.mem_cons_of_mem _ hs)
    have hp' : ∀ r, Step.request r ∈ steps → r.Preserved codec :=
      fun r hr => hp r (List.mem_cons_of_mem _ hr)
    cases step with
    | reopen => exact ih (matches_reopened h) hk' hp'
    | request r =>
      obtain ⟨a, a', m', d', hmem, hdisk, ha, h'⟩ :=
        perform_agrees hd h r (hk _ List.mem_cons_self) (hp r List.mem_cons_self)
      simp only [answers, hmem, hdisk]
      exact .cons ha (ih h' hk' hp')

/-! ## Reopening -/

/-- The listing looks at the folder only. -/
theorem keysOf_counters (d : DiskStore) (c : Counters) (files : List Text) :
    DiskStore.keysOf { d with counters := c } files
      = ((d.keysOf files).1, { (d.keysOf files).2.1 with counters := c },
        (d.keysOf files).2.2) := by
  induction files generalizing d with
  | nil => rfl
  | cons file files ih =>
    simp only [DiskStore.keysOf]
    cases Entry.read d.codec ((d.files.get? file).getD []) with
    | ok entry =>
      cases hkey : entry.key with
      | none => simp only [hkey]
      | some key => simp only [hkey, ih]
    | error fault =>
      cases fault with
      | corrupt => simp only [DiskStore.removeCorrupt, ih { d with files := d.files.erase file }]
      | limit l => rfl

/-- One request, with other counters. -/
theorem perform_counters (d : DiskStore) (c : Counters) (r : Request) :
    ∃ a a' d' c', (disk d).perform r = (a, disk d') ∧
      (disk { d with counters := c }).perform r = (a', disk { d' with counters := c' }) ∧
      a.dropCounters = a'.dropCounters := by
  cases r with
  | get key =>
    cases hf : d.files.get? (DiskStore.fileOf key) with
    | none =>
      refine ⟨.queries (.ok none) [], _, { d with counters := d.counters.miss }, c.miss, ?_, ?_,
        rfl⟩ <;> simp only [perform, Store.get, DiskStore.get, hf]
    | some content =>
      cases hr : Entry.read d.codec content with
      | ok entry =>
        refine ⟨.queries (.ok (some entry.queries)) [], _, { d with counters := d.counters.hit },
          c.hit, ?_, ?_, rfl⟩ <;> simp only [perform, Store.get, DiskStore.get, hf, hr]
      | error fault =>
        cases fault with
        | corrupt =>
          refine ⟨.queries (.ok none) [.corruptEntry (DiskStore.fileOf key)], _,
            ⟨d.files.erase (DiskStore.fileOf key), d.codec, d.counters.miss⟩, c.miss, ?_, ?_,
            rfl⟩ <;>
            simp only [perform, Store.get, DiskStore.get, hf, hr, DiskStore.removeCorrupt]
        | limit l =>
          refine ⟨.queries (.error l) [], _, { d with counters := d.counters.failure }, c.failure,
            ?_, ?_, rfl⟩ <;> simp only [perform, Store.get, DiskStore.get, hf, hr]
  | keys =>
    refine ⟨_, _, _, c, rfl, ?_, rfl⟩
    have hkeys : DiskStore.keys { d with counters := c }
        = (d.keys.1, { d.keys.2.1 with counters := c }, d.keys.2.2) :=
      keysOf_counters d c d.entryFiles
    exact congrArg (fun x => (Answer.keys x.1 x.2.2, disk x.2.1)) hkeys
  | _ => exact ⟨_, _, _, c, rfl, rfl, rfl⟩

/-- Over any folder, reopenings change no answer but the counters. -/
theorem answers_reopened (d : DiskStore) (c : Counters) (steps : List Step) :
    ((disk d).answers (requests steps)).map Answer.dropCounters
      = ((disk { d with counters := c }).answers steps).map Answer.dropCounters := by
  induction steps generalizing d c with
  | nil => rfl
  | cons step steps ih =>
    cases step with
    | reopen => exact ih d .zero
    | request r =>
      obtain ⟨a, a', d', c', h, h', ha⟩ := perform_counters d c r
      have hreq : requests (.request r :: steps) = .request r :: requests steps := rfl
      simp only [hreq, answers, h, h', List.map_cons, ha, ih d' c']

/-! ## Runs from empty stores -/

/-- **The disk store refines the memory store.** From empty stores, every run gets agreeing
answers from both kinds, with any codec that gives back what is stored or with none, and reopening
the disk store changes no answer of it but the counters. -/
theorem disk_refines_memory (codec : Option Codec) (steps : List Step)
    (hd : Digest.Distinguishes (usedKeys steps))
    (hp : ∀ r, Step.request r ∈ steps → r.Preserved codec) :
    List.Forall₂ Answer.Agrees ((memory .new).answers steps)
        ((disk (.onFiles .empty codec)).answers steps) ∧
      ((disk (.onFiles .empty codec)).answers (requests steps)).map Answer.dropCounters
        = ((disk (.onFiles .empty codec)).answers steps).map Answer.dropCounters :=
  ⟨answers_agree hd (matches_empty _ codec) steps
      (fun step hs _ hk => List.mem_filterMap.mpr ⟨step, hs, hk⟩) hp,
    answers_reopened _ .zero steps⟩

/-- Two pages in a compressed store that is reopened and then overwritten. -/
def twoPages : List Step :=
  [.request (.set "a.md".toList (.ofList [("a".toList, "select 1".toList)])),
    .request (.set "b.md".toList (.ofList [("b".toList, "select 2".toList)])),
    .request (.get "a.md".toList), .reopen,
    .request (.set "a.md".toList .empty), .request .keys, .request .stats]

theorem distinguishes_twoPages : Digest.Distinguishes (usedKeys twoPages) := by
  unfold Digest.Distinguishes
  decide +kernel

theorem preserved_twoPages (r : Request) (hr : Step.request r ∈ twoPages) :
    r.Preserved (some Frame.codec) := by
  simp only [twoPages, List.mem_cons, List.not_mem_nil, or_false, false_or,
    Step.request.injEq, reduceCtorEq] at hr
  rcases hr with rfl | rfl | rfl | rfl | rfl | rfl
  · exact Entry.preserved_frame (by decide +kernel)
  · exact Entry.preserved_frame (by decide +kernel)
  · trivial
  · exact Entry.preserved_frame (by decide +kernel)
  · trivial
  · trivial

theorem disk_refines_memory_twoPages :
    Digest.Distinguishes (usedKeys twoPages) ∧
      List.Forall₂ Answer.Agrees ((memory .new).answers twoPages)
        ((disk (.ofFiles .empty true)).answers twoPages) :=
  ⟨distinguishes_twoPages,
    (disk_refines_memory (some Frame.codec) twoPages distinguishes_twoPages preserved_twoPages).1⟩

end PageQueries.Store
