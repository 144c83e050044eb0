import Mathlib.Data.List.Induction
import PageQueries.Proofs.Store.Sharing

/-!
# What a memory store remembers

A caller asks a new memory store for this and that, in any order, and the store
answers from what was asked before. The requests so far are the history. A key
is `Live` if some set of it is not followed by a discard of it or by a clear,
and the store holds for it what its `LatestSet` has stored. The keys stand in
the order of their latest sets.

What the caller does to the maps that it holds is no part of the history.

Results:
* `inv_reply`: one request keeps the store in step with its history.
* `remembers_latest`: in every session each reply is the one that the history
  asks for, and the counters of the statistics count the replies to gets.
-/
namespace PageQueries.MemoryStore

open Store (Request Stats)

/-! ## Histories -/

/-- Ends what earlier sets of the key have stored. -/
def Ends (key : Text) : Request → Prop
  | .discard k => k = key
  | .clear => True
  | _ => False

/-- Some set of the key is not followed by a discard of it or a clear. -/
def Live (history : List Request) (key : Text) : Prop :=
  ∃ before queries after, history = before ++ .set key queries :: after ∧ ∀ r ∈ after, ¬ Ends key r

/-- The latest set of the key has stored the queries. -/
def LatestSet (history : List Request) (key : Text) (queries : Queries) : Prop :=
  ∃ before after, history = before ++ .set key queries :: after ∧ ∀ q, .set key q ∉ after

/-- The latest set of the first key comes before that of the second. -/
def SetEarlier (history : List Request) (key key' : Text) : Prop :=
  ∃ before queries after, history = before ++ .set key queries :: after ∧
    (∀ q, .set key q ∉ after) ∧ ∃ q, .set key' q ∈ after

/-- The live keys, each once, in the order of their latest sets. -/
structure Listing (history : List Request) (ks : List Text) : Prop where
  nodup : ks.Nodup
  live : ∀ key, key ∈ ks ↔ Live history key
  order : ks.Pairwise (SetEarlier history)

/-- The requests for the queries of a key. -/
def gets (log : List (Request × Reply)) : Nat :=
  log.countP fun
    | (.get _, _) => true
    | _ => false

/-- The replies with queries. -/
def hits (log : List (Request × Reply)) : Nat :=
  log.countP fun
    | (_, .queries (some _)) => true
    | _ => false

/-- The replies that there are no queries. -/
def misses (log : List (Request × Reply)) : Nat :=
  log.countP fun
    | (_, .queries none) => true
    | _ => false

/-- What the replies have to be, after the requests and replies of a log. -/
inductive Right (log : List (Request × Reply)) : Request → Reply → Prop
  | set {key : Text} {queries : Queries} : Right log (.set key queries) .done
  | get {key : Text} {found : Option Queries}
      (h : ∀ q, found = some q ↔ Live (asked log) key ∧ LatestSet (asked log) key q) :
      Right log (.get key) (.queries found)
  | discard {key : Text} {b : Bool} (h : b = true ↔ Live (asked log) key) :
      Right log (.discard key) (.truth b)
  | contains {key : Text} {b : Bool} (h : b = true ↔ Live (asked log) key) :
      Right log (.contains key) (.truth b)
  | size {ks : List Text} (h : Listing (asked log) ks) : Right log .size (.number ks.length)
  | clear : Right log .clear .done
  | keys {ks : List Text} (h : Listing (asked log) ks) : Right log .keys (.keys ks)
  | stats {ks : List Text} {s : Stats} (h : Listing (asked log) ks) (hsize : s.entries = ks.length)
      (hcounters : s.counters = ⟨hits log, misses log, gets log⟩)
      (hsum : hits log + misses log = gets log) : Right log .stats (.stats s)

/-- Every reply of a log is right after what stands before it. -/
inductive AllRight : List (Request × Reply) → Prop
  | nil : AllRight []
  | concat {log : List (Request × Reply)} {r : Request} {a : Reply} (earlier : AllRight log)
      (latest : Right log r a) : AllRight (log ++ [(r, a)])

section Histories

variable {history : List Request} {key key' : Text} {queries : Queries} {r : Request}

theorem concat_eq_append_cons {α : Type} {l before after : List α} {a b : α} :
    l ++ [a] = before ++ b :: after ↔
      l = before ∧ a = b ∧ after = [] ∨
        ∃ after', after = after' ++ [a] ∧ l = before ++ b :: after' := by
  constructor
  · intro h
    rcases List.eq_nil_or_concat after with rfl | ⟨after', c, rfl⟩
    · obtain ⟨rfl, hab⟩ := List.append_inj' h rfl
      exact Or.inl ⟨rfl, (List.cons.inj hab).1, rfl⟩
    · have hsplit : l ++ [a] = (before ++ b :: after') ++ [c] := by
        rw [h, List.concat_eq_append]
        simp
      obtain ⟨rfl, hac⟩ := List.append_inj' hsplit rfl
      obtain ⟨rfl, -⟩ := List.cons.inj hac
      exact Or.inr ⟨after', List.concat_eq_append, rfl⟩
  · rintro (⟨rfl, rfl, rfl⟩ | ⟨after', rfl, rfl⟩)
    · rfl
    · simp

theorem live_concat :
    Live (history ++ [r]) key ↔ (∃ q, r = .set key q) ∨ ¬ Ends key r ∧ Live history key := by
  constructor
  · rintro ⟨before, q, after, he, hafter⟩
    rcases concat_eq_append_cons.mp he with ⟨-, rfl, -⟩ | ⟨after', rfl, rfl⟩
    · exact Or.inl ⟨q, rfl⟩
    · refine Or.inr ⟨hafter r (by simp), before, q, after', rfl, fun r' hr' => ?_⟩
      exact hafter r' (List.mem_append_left _ hr')
  · rintro (⟨q, rfl⟩ | ⟨hr, before, q, after, rfl, hafter⟩)
    · exact ⟨history, q, [], rfl, by simp⟩
    · refine ⟨before, q, after ++ [r], by simp, fun r' hr' => ?_⟩
      rcases List.mem_append.mp hr' with h | h
      · exact hafter r' h
      · rwa [List.mem_singleton.mp h]

theorem latestSet_concat :
    LatestSet (history ++ [r]) key queries ↔
      r = .set key queries ∨ (∀ q, r ≠ .set key q) ∧ LatestSet history key queries := by
  constructor
  · rintro ⟨before, after, he, hafter⟩
    rcases concat_eq_append_cons.mp he with ⟨-, rfl, -⟩ | ⟨after', rfl, rfl⟩
    · exact Or.inl rfl
    · refine Or.inr ⟨fun q hq => hafter q (by simp [hq]), before, after', rfl, fun q hq => ?_⟩
      exact hafter q (List.mem_append_left _ hq)
  · rintro (rfl | ⟨hr, before, after, rfl, hafter⟩)
    · exact ⟨history, [], rfl, by simp⟩
    · refine ⟨before, after ++ [r], by simp, fun q hq => ?_⟩
      rcases List.mem_append.mp hq with h | h
      · exact hafter q h
      · exact hr q (List.mem_singleton.mp h).symm

/-- What is not set again stays earlier. -/
theorem SetEarlier.concat (h : SetEarlier history key key') (hr : ∀ q, r ≠ .set key q) :
    SetEarlier (history ++ [r]) key key' := by
  obtain ⟨before, q, after, rfl, hafter, q', hq'⟩ := h
  refine ⟨before, q, after ++ [r], by simp, fun p hp => ?_, q', List.mem_append_left _ hq'⟩
  rcases List.mem_append.mp hp with h | h
  · exact hafter p h
  · exact hr p (List.mem_singleton.mp h).symm

/-- What was set before is earlier than what is set now. -/
theorem LatestSet.earlier (h : LatestSet history key queries) (hne : key ≠ key') (q : Queries) :
    SetEarlier (history ++ [.set key' q]) key key' := by
  obtain ⟨before, after, rfl, hafter⟩ := h
  refine ⟨before, queries, after ++ [.set key' q], by simp, fun p hp => ?_, q, by simp⟩
  rcases List.mem_append.mp hp with h | h
  · exact hafter p h
  · have heq := List.mem_singleton.mp h
    injection heq with hk
    exact hne hk

/-- Of the sets of a key, one is the latest. -/
theorem exists_latestSet (h : ∃ q, .set key q ∈ history) : ∃ q, LatestSet history key q := by
  induction history using List.reverseRecOn with
  | nil =>
    obtain ⟨q, hq⟩ := h
    cases hq
  | append_singleton history r ih =>
    by_cases hr : ∃ q, r = .set key q
    · obtain ⟨q, rfl⟩ := hr
      exact ⟨q, latestSet_concat.mpr (Or.inl rfl)⟩
    · simp only [not_exists] at hr
      obtain ⟨q, hq⟩ := h
      have hmem : .set key q ∈ history := by
        rcases List.mem_append.mp hq with h | h
        · exact h
        · exact absurd (List.mem_singleton.mp h).symm (hr q)
      obtain ⟨q', hq'⟩ := ih ⟨q, hmem⟩
      exact ⟨q', latestSet_concat.mpr (Or.inr ⟨hr, hq'⟩)⟩

theorem Live.exists_latestSet (h : Live history key) : ∃ q, LatestSet history key q := by
  obtain ⟨before, q, after, rfl, -⟩ := h
  exact MemoryStore.exists_latestSet ⟨q, by simp⟩

end Histories

/-! ## The entries after a history -/

/-- The entries are those of the live keys, with what their latest sets have stored, in the order
of these sets. -/
structure Remembers (history : List Request) (entries : OrderedMap Text Queries) : Prop where
  holds : ∀ key q, (key, q) ∈ entries.toList ↔ Live history key ∧ LatestSet history key q
  order : entries.keys.Pairwise (SetEarlier history)

namespace Remembers

variable {history : List Request} {entries : OrderedMap Text Queries} {r : Request}

theorem get?_eq_some_iff (h : Remembers history entries) (key : Text) (q : Queries) :
    entries.get? key = some q ↔ Live history key ∧ LatestSet history key q := by
  rw [OrderedMap.get?_eq_some_iff, h.holds]

theorem mem_keys_iff (h : Remembers history entries) (key : Text) :
    key ∈ entries.keys ↔ Live history key := by
  rw [← OrderedMap.isSome_get?_iff, Option.isSome_iff_exists]
  simp only [h.get?_eq_some_iff, exists_and_left]
  exact and_iff_left_of_imp Live.exists_latestSet

theorem contains_iff (h : Remembers history entries) (key : Text) :
    entries.contains key = true ↔ Live history key := by
  rw [OrderedMap.contains, OrderedMap.isSome_get?_iff, h.mem_keys_iff]

theorem listing (h : Remembers history entries) : Listing history entries.keys :=
  ⟨entries.nodup, h.mem_keys_iff, h.order⟩

theorem empty : Remembers [] .empty where
  holds key q := by
    constructor
    · intro hm
      cases hm
    · rintro ⟨⟨before, q', after, he, -⟩, -⟩
      simp at he
  order := List.Pairwise.nil

/-- A request that neither sets nor ends anything. -/
theorem keep (h : Remembers history entries) (hset : ∀ key q, r ≠ .set key q)
    (hends : ∀ key, ¬ Ends key r) : Remembers (history ++ [r]) entries where
  holds key q := by
    rw [h.holds, live_concat, latestSet_concat]
    simp [hset, hends]
  order := h.order.imp fun hearlier => hearlier.concat (hset _)

/-- The keys that are left keep their order, whatever is done to the one that is gone. -/
theorem order_erase (h : Remembers history entries) {key : Text}
    (hset : ∀ k, k ≠ key → ∀ q, r ≠ .set k q) :
    (entries.erase key).keys.Pairwise (SetEarlier (history ++ [r])) := by
  have hsublist : (entries.erase key).keys.Sublist entries.keys :=
    List.filter_sublist.map Prod.fst
  refine (h.order.sublist hsublist).imp_of_mem fun {k k'} hk _ hearlier => ?_
  refine hearlier.concat (hset k fun heq => ?_)
  exact Pairs.notMem_keys_erase key entries.toList (heq ▸ hk)

theorem set (h : Remembers history entries) (key : Text) (q : Queries) :
    Remembers (history ++ [.set key q]) (entries.renew key q) where
  holds k p := by
    rw [OrderedMap.toList_renew, List.mem_append, List.mem_singleton, live_concat,
      latestSet_concat]
    by_cases hk : k = key
    · subst hk
      simp [Pairs.erase, eq_comm]
    · have hk' : key ≠ k := fun e => hk e.symm
      simp [Pairs.erase, h.holds, hk, hk', Ends]
  order := by
    have hkeys : (entries.renew key q).keys = (entries.erase key).keys ++ [key] := by
      rw [OrderedMap.keys, OrderedMap.toList_renew, List.map_append]
      rfl
    have hset (k : Text) (hk : k ≠ key) (p : Queries) : Request.set key q ≠ .set k p := by
      intro heq
      injection heq with hkey
      exact hk hkey.symm
    rw [hkeys, List.pairwise_append]
    refine ⟨h.order_erase hset, List.pairwise_singleton _ key, fun k hk k' hk' => ?_⟩
    rw [List.mem_singleton.mp hk']
    have hne : k ≠ key := fun heq => Pairs.notMem_keys_erase key entries.toList (heq ▸ hk)
    have hlive : Live history k := by
      rw [← h.mem_keys_iff]
      exact (List.filter_sublist.map Prod.fst).subset hk
    obtain ⟨p, hp⟩ := hlive.exists_latestSet
    exact hp.earlier hne q

theorem discard (h : Remembers history entries) (key : Text) :
    Remembers (history ++ [.discard key]) (entries.erase key) where
  holds k p := by
    rw [live_concat, latestSet_concat]
    by_cases hk : k = key
    · subst hk
      simp [OrderedMap.erase, Pairs.erase, Ends]
    · have hk' : key ≠ k := fun e => hk e.symm
      simp [OrderedMap.erase, Pairs.erase, h.holds, hk, hk', Ends]
  order := h.order_erase fun k _ q heq => by cases heq

theorem clear (history : List Request) : Remembers (history ++ [.clear]) .empty where
  holds key q := by
    rw [live_concat]
    simp [OrderedMap.empty, Ends]
  order := List.Pairwise.nil

end Remembers

/-! ## Sessions and their logs -/

/-- The store is in step with the requests and replies so far. -/
structure Inv (log : List (Request × Reply)) (s : MemoryStore) : Prop where
  entries : Remembers (asked log) s.entries
  counters : s.counters = ⟨hits log, misses log, gets log⟩
  sum : hits log + misses log = gets log

theorem inv_new : Inv [] .new := ⟨.empty, rfl, rfl⟩

/-- A request that is no get leaves the counters alone. -/
theorem Inv.concat {log : List (Request × Reply)} {s s' : MemoryStore} {r : Request} {a : Reply}
    (h : Inv log s) (hr : ∀ key, r ≠ .get key) (ha : ∀ found, a ≠ .queries found)
    (hentries : Remembers (asked log ++ [r]) s'.entries) (hcounters : s'.counters = s.counters) :
    Inv (log ++ [(r, a)]) s' := by
  have hhits : hits (log ++ [(r, a)]) = hits log := by
    cases a <;> simp_all [hits]
  have hmisses : misses (log ++ [(r, a)]) = misses log := by
    cases a <;> simp_all [misses]
  have hgets : gets (log ++ [(r, a)]) = gets log := by
    cases r <;> simp_all [gets]
  refine ⟨?_, ?_, ?_⟩
  · rwa [asked_concat]
  · rw [hcounters, h.counters, hhits, hmisses, hgets]
  · rw [hhits, hmisses, hgets, h.sum]

/-- One request: the reply is right, and the store stays in step. -/
theorem inv_reply {log : List (Request × Reply)} {s : MemoryStore} (h : Inv log s) (r : Request) :
    Right log r (s.reply r).1 ∧ Inv (log ++ [(r, (s.reply r).1)]) (s.reply r).2 := by
  have hsize : s.entries.size = s.entries.keys.length := by
    rw [OrderedMap.size, OrderedMap.keys, List.length_map]
  cases r with
  | set key q => exact ⟨.set, h.concat (by simp) (by simp [reply]) (h.entries.set key q) rfl⟩
  | get key =>
    have hright : Right log (.get key) (.queries (s.entries.get? key)) :=
      .get fun q => h.entries.get?_eq_some_iff key q
    have hkeep : Remembers (asked log ++ [.get key]) s.entries :=
      h.entries.keep (by simp) (by simp [Ends])
    rw [reply_get]
    refine ⟨hright, ?_, ?_, ?_⟩
    · rwa [asked_concat]
    · show s.counters.count _ = _
      rw [h.counters]
      cases s.entries.get? key <;>
        simp [Counters.count, Counters.hit, Counters.miss, hits, misses, gets]
    · have hsum := h.sum
      cases s.entries.get? key <;> simp only [hits, misses, gets] at hsum ⊢ <;> simp <;> omega
  | discard key =>
    exact ⟨.discard (h.entries.contains_iff key),
      h.concat (by simp) (by simp [reply]) (h.entries.discard key) rfl⟩
  | contains key =>
    exact ⟨.contains (h.entries.contains_iff key),
      h.concat (by simp) (by simp [reply]) (h.entries.keep (by simp) (by simp [Ends])) rfl⟩
  | size =>
    refine ⟨?_, h.concat (by simp) (by simp [reply]) ?_ rfl⟩
    rotate_left
    · exact h.entries.keep (by simp) (by simp [Ends])
    show Right log .size (.number s.entries.size)
    rw [hsize]
    exact .size h.entries.listing
  | clear => exact ⟨.clear, h.concat (by simp) (by simp [reply]) (Remembers.clear _) rfl⟩
  | keys =>
    exact ⟨.keys h.entries.listing,
      h.concat (by simp) (by simp [reply]) (h.entries.keep (by simp) (by simp [Ends])) rfl⟩
  | stats =>
    exact ⟨.stats h.entries.listing hsize h.counters h.sum,
      h.concat (by simp) (by simp [reply]) (h.entries.keep (by simp) (by simp [Ends])) rfl⟩

/-- A session whose store is in step with its log, in which all replies are right. -/
structure Session.Faithful (s : Session) : Prop where
  apart : s.Apart
  right : AllRight s.log
  inv : Inv s.log s.store

theorem Session.faithful_new : Session.new.Faithful := ⟨apart_new, .nil, inv_new⟩

/-- Whatever the caller does, also to its maps. -/
theorem Session.Faithful.step {s : Session} (h : s.Faithful) (action : Action) :
    (s.step action).Faithful := by
  obtain ⟨hapart, ⟨hlog, hstore⟩ | ⟨r, hlog, hstore⟩⟩ := step_spec h.apart action
  · refine ⟨hapart, ?_, ?_⟩
    · rw [hlog]
      exact h.right
    · rw [hlog, hstore]
      exact h.inv
  · obtain ⟨hright, hinv⟩ := inv_reply h.inv r
    refine ⟨hapart, ?_, ?_⟩
    · rw [hlog]
      exact .concat h.right hright
    · rwa [hlog, hstore]

theorem Session.Faithful.run {s : Session} (h : s.Faithful) (actions : List Action) :
    (s.run actions).Faithful := by
  induction actions generalizing s with
  | nil => exact h
  | cons action actions ih => exact ih (h.step action)

/-- **A memory store remembers the latest sets.** In every session with a new store, each reply is
right after the requests before it, whatever the caller does to the maps that it holds. The replies
are the answers of a memory store to the requests, and these may be any. -/
theorem remembers_latest :
    (∀ actions : List Action, AllRight (Session.new.run actions).log ∧
      (Session.new.run actions).log.map (·.2.answer)
        = (Store.memory .new).answers ((asked (Session.new.run actions).log).map .request)) ∧
    ∀ rs : List Request, asked (Session.new.run (rs.map .ask)).log = rs := by
  refine ⟨fun actions => ⟨(Session.faithful_new.run actions).right, ?_⟩, Session.asked_run .new⟩
  obtain ⟨rs, hasked, hanswers⟩ := Session.answers_run Session.apart_new actions
  rw [hanswers, hasked]
  rfl

/-- The caller changes the map that it passed and the one that it got. The store keeps the void one,
and has an entry to discard. -/
example (queries : Queries) :
    (Session.new.run [.make .empty, .pass "a.md".toList 0, .change 0 queries,
      .ask (.get "a.md".toList), .change 1 queries, .ask (.get "a.md".toList),
      .ask (.discard "a.md".toList)]).log.map Prod.snd
    = [.done, .queries (some .empty), .queries (some .empty), .truth true] := by
  rfl

end PageQueries.MemoryStore
