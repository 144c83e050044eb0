import PageQueries.Proofs.Store.Mirror
import PageQueries.Store.Basic

/-!
# What a store keeps

`Keeps used entries kind s` says that the store `s`, of the given kind, keeps
exactly `entries`: a memory store as they are, a disk store in a folder that
mirrors them. Each operation of either kind is described by its effect on these
entries, so that what uses a store need not tell the kinds apart.

Only a disk store asks for different digests of the keys in use, and only one
that compresses for a codec that gives the entries back.
-/
namespace PageQueries.Store

/-- The kinds of stores; on disk, entries may be compressed. -/
inductive Kind where
  | memory
  | disk (codec : Option Codec)

/-- A store without entries: in memory, or over an empty folder. -/
def fresh : Kind → Store
  | .memory => memory .new
  | .disk codec => disk (.onFiles .empty codec)

/-- The store that a new owner finds: the memory store itself, or a new store over the folder. -/
def handedOver : Store → Store
  | memory m => memory m
  | disk d => disk (.onFiles d.files d.codec)

/-- A store of the given kind that keeps exactly the entries. -/
inductive Keeps (used : List Text) (entries : OrderedMap Text Queries) : Kind → Store → Prop
  | memory {m : MemoryStore} (h : m.entries = entries) : Keeps used entries .memory (.memory m)
  | disk {d : DiskStore} {codec : Option Codec} (hc : d.codec = codec)
      (h : d.Mirrors used entries) : Keeps used entries (.disk codec) (.disk d)

namespace Keeps

variable {used : List Text} {entries : OrderedMap Text Queries} {kind : Kind} {s : Store}
  {key : Text}

theorem fresh (used : List Text) (kind : Kind) : Keeps used .empty kind (fresh kind) := by
  cases kind with
  | memory => exact .memory rfl
  | disk codec => exact .disk rfl (.empty used codec)

theorem handedOver (h : Keeps used entries kind s) : Keeps used entries kind s.handedOver := by
  cases h with
  | memory h => exact .memory h
  | disk hc h => exact .disk hc (h.of_same_files rfl rfl)

theorem set (hd : kind ≠ .memory → Digest.Distinguishes used) (h : Keeps used entries kind s)
    (hk : key ∈ used) {queries : Queries}
    (hp : ∀ codec, kind = .disk codec → Entry.Preserved codec key queries) :
    Keeps used (entries.renew key queries) kind (s.set key queries) := by
  cases h with
  | memory h => subst h; exact .memory rfl
  | disk hc h => exact .disk hc (h.set (hd Kind.noConfusion) hk (hp _ (congrArg Kind.disk hc.symm)))

/-- Asking for an entry finds it, and leaves the entries as they are. -/
theorem get (hd : kind ≠ .memory → Digest.Distinguishes used) (h : Keeps used entries kind s)
    (hk : key ∈ used) :
    ∃ s', s.get key = (.ok ((entries.get? key).map (·.map .text)), s', []) ∧
      Keeps used entries kind s' := by
  cases h with
  | @memory m h =>
    subst h
    refine ⟨.memory (m.get key).2, ?_, ?_⟩
    · rw [Store.get, MemoryStore.get]
      cases m.entries.get? key <;> rfl
    · refine .memory ?_
      rw [MemoryStore.get]
      cases m.entries.get? key <;> rfl
  | @disk d codec hc h =>
    have hget := h.get_eq (hd Kind.noConfusion) hk
    refine ⟨.disk { d with counters := d.counters.count (entries.get? key).isSome }, ?_, ?_⟩
    · simp only [Store.get, hget]
    · exact .disk hc (h.of_same_files rfl rfl)

theorem discard (hd : kind ≠ .memory → Digest.Distinguishes used) (h : Keeps used entries kind s)
    (hk : key ∈ used) : Keeps used (entries.erase key) kind (s.discard key).2 := by
  cases h with
  | memory h => subst h; exact .memory rfl
  | disk hc h => exact .disk hc (h.discard (hd Kind.noConfusion) hk)

end Keeps

end PageQueries.Store
