import PageQueries.Proofs.OrderedMap
import PageQueries.Proofs.Store.Refinement

/-!
# A memory store and its caller

The maps that a memory store is given and gives back are objects: whoever holds
one can change it. Here the store and its caller hold maps by number, and
`Session.maps` has the contents. The store keeps a copy of what it is given,
and gives a copy of what it keeps. So it is the only one that holds the maps of
its entries (`Apart`), and it does not change them. Then it makes no difference
that they are objects: `MemoryStore`, where maps are plain values, gives the
same replies.

Results:
* `Session.serve_spec`: a request to the store of objects is one to the store
  of values.
* `Session.answers_run`: so is a session, whatever the caller does to the maps
  that it holds.
-/
namespace PageQueries.MemoryStore

open Store (Request Stats)

/-- What the store replies to a request. -/
inductive Reply where
  | done
  | queries (found : Option Queries)
  | truth (b : Bool)
  | number (n : Nat)
  | keys (ks : List Text)
  | stats (s : Stats)

/-- The reply to a request, and the store after it. -/
def reply (s : MemoryStore) : Request → Reply × MemoryStore
  | .set key queries => (.done, s.set key queries)
  | .get key => (.queries (s.get key).1, (s.get key).2)
  | .discard key => (.truth (s.discard key).1, (s.discard key).2)
  | .contains key => (.truth (s.contains key), s)
  | .size => (.number s.size, s)
  | .clear => (.done, s.clear)
  | .keys => (.keys s.keys, s)
  | .stats => (.stats ⟨s.counters, s.counters.hitRate, s.size⟩, s)

theorem reply_get (s : MemoryStore) (key : Text) :
    s.reply (.get key) = (.queries (s.entries.get? key),
      { s with counters := s.counters.count (s.entries.get? key).isSome }) := by
  rw [reply, Store.memory_get]

/-- A reply as a store of either kind gives it. -/
def Reply.answer : Reply → Store.Answer
  | done => .done
  | queries found => .queries (.ok (found.map (·.map .text))) []
  | truth b => .truth b
  | number n => .number n
  | keys ks => .keys (.ok (ks.map .text)) []
  | stats s => .stats s

theorem perform_memory (s : MemoryStore) (r : Request) :
    (Store.memory s).perform r = ((s.reply r).1.answer, .memory (s.reply r).2) := by
  cases r <;> rfl

/-- The requests of a log. -/
def asked (log : List (Request × Reply)) : List Request := log.map Prod.fst

theorem asked_concat (log : List (Request × Reply)) (r : Request) (a : Reply) :
    asked (log ++ [(r, a)]) = asked log ++ [r] := List.map_append

/-- A memory store and its caller. -/
structure Session where
  /-- What stands in the maps, by their numbers. -/
  maps : List Queries
  /-- The maps that the caller holds, made by itself or given by the store. -/
  held : List Nat
  /-- The maps of the store. -/
  entries : OrderedMap Text Nat
  counters : Counters
  /-- The requests so far, with what the replies were at the time. -/
  log : List (Request × Reply)

/-- What a caller does. -/
inductive Action where
  | make (queries : Queries)
  /-- Changes one of the maps that it holds. -/
  | change (place : Nat) (queries : Queries)
  /-- Stores one of the maps that it holds. -/
  | pass (key : Text) (place : Nat)
  /-- Asks the store; it does not hold the map that a set stores. -/
  | ask (r : Request)

namespace Session

/-- A caller of a new store. -/
def new : Session := ⟨[], [], .empty, .zero, []⟩

/-- What stands in a map. -/
def content (maps : List Queries) (number : Nat) : Queries := (maps[number]?).getD .empty

/-- The reply to a request, and the session after it, except for the log. What is set is copied
into a new map, and so is what is got. -/
def serve (s : Session) : Request → Reply × Session
  | .set key queries =>
    (.done, { s with
      maps := s.maps ++ [queries]
      entries := s.entries.renew key s.maps.length })
  | .get key =>
    match s.entries.get? key with
    | some number =>
      (.queries (some (content s.maps number)), { s with
        maps := s.maps ++ [content s.maps number]
        held := s.held ++ [s.maps.length]
        counters := s.counters.hit })
    | none => (.queries none, { s with counters := s.counters.miss })
  | .discard key => (.truth (s.entries.contains key), { s with entries := s.entries.erase key })
  | .contains key => (.truth (s.entries.contains key), s)
  | .size => (.number s.entries.size, s)
  | .clear => (.done, { s with entries := .empty })
  | .keys => (.keys s.entries.keys, s)
  | .stats => (.stats ⟨s.counters, s.counters.hitRate, s.entries.size⟩, s)

def ask (s : Session) (r : Request) : Session :=
  { (s.serve r).2 with log := s.log ++ [(r, (s.serve r).1)] }

def step (s : Session) : Action → Session
  | .make queries =>
    { s with maps := s.maps ++ [queries], held := s.held ++ [s.maps.length] }
  | .change place queries =>
    match s.held[place]? with
    | some number => { s with maps := s.maps.set number queries }
    | none => s
  | .pass key place =>
    match s.held[place]? with
    | some number => s.ask (.set key (content s.maps number))
    | none => s
  | .ask r => s.ask r

def run (s : Session) (actions : List Action) : Session := actions.foldl step s

/-- The store with what stands in its maps. -/
def store (s : Session) : MemoryStore := ⟨s.entries.map (content s.maps), s.counters⟩

/-! ## Nobody else holds the maps of the store -/

/-- The caller holds none of the maps of the store. -/
structure Apart (s : Session) : Prop where
  held : ∀ number ∈ s.held, number < s.maps.length
  stored : ∀ p ∈ s.entries.toList, p.2 < s.maps.length
  apart : ∀ p ∈ s.entries.toList, p.2 ∉ s.held

theorem apart_new : Apart new where
  held := List.forall_mem_nil _
  stored := List.forall_mem_nil _
  apart := List.forall_mem_nil _

section Contents

variable {maps : List Queries} {number other : Nat}

theorem content_append (h : number < maps.length) (queries : Queries) :
    content (maps ++ [queries]) number = content maps number := by
  rw [content, content, List.getElem?_append_left h]

theorem content_length (maps : List Queries) (queries : Queries) :
    content (maps ++ [queries]) maps.length = queries := by
  rw [content, List.getElem?_concat_length]
  rfl

theorem content_set (h : number ≠ other) (queries : Queries) :
    content (maps.set other queries) number = content maps number := by
  rw [content, content, List.getElem?_set_ne h.symm]

end Contents

variable {s : Session}

/-- A new map for the caller. -/
theorem Apart.hold (h : s.Apart) (queries : Queries) (c : Counters) :
    Apart { s with
      maps := s.maps ++ [queries], held := s.held ++ [s.maps.length], counters := c } where
  held number hn := by
    rw [List.length_append, List.length_singleton]
    rcases List.mem_append.mp hn with hold | hnew
    · exact Nat.lt_succ_of_lt (h.held number hold)
    · rw [List.mem_singleton.mp hnew]
      exact Nat.lt_succ_self _
  stored p hp := by
    rw [List.length_append, List.length_singleton]
    exact Nat.lt_succ_of_lt (h.stored p hp)
  apart p hp hn := by
    rcases List.mem_append.mp hn with hold | hnew
    · exact h.apart p hp hold
    · exact absurd (List.mem_singleton.mp hnew) (Nat.ne_of_lt (h.stored p hp))

/-- A new map for the store. -/
theorem Apart.keep (h : s.Apart) (key : Text) (queries : Queries) :
    Apart { s with
      maps := s.maps ++ [queries], entries := s.entries.renew key s.maps.length } := by
  have hentries : ∀ p ∈ (s.entries.renew key s.maps.length).toList,
      p ∈ s.entries.toList ∨ p = (key, s.maps.length) := by
    intro p hp
    rw [OrderedMap.toList_renew] at hp
    rcases List.mem_append.mp hp with hold | hnew
    · exact Or.inl (List.mem_of_mem_filter hold)
    · exact Or.inr (List.mem_singleton.mp hnew)
  refine ⟨fun number hn => ?_, fun p hp => ?_, fun p hp hn => ?_⟩
  · rw [List.length_append, List.length_singleton]
    exact Nat.lt_succ_of_lt (h.held number hn)
  · rw [List.length_append, List.length_singleton]
    rcases hentries p hp with hold | rfl
    · exact Nat.lt_succ_of_lt (h.stored p hold)
    · exact Nat.lt_succ_self _
  · rcases hentries p hp with hold | rfl
    · exact h.apart p hold hn
    · exact absurd (h.held _ hn) (Nat.lt_irrefl _)

/-- The store keeps only some of its maps. -/
theorem Apart.drop (h : s.Apart) {entries : OrderedMap Text Nat}
    (hsub : ∀ p ∈ entries.toList, p ∈ s.entries.toList) : Apart { s with entries } where
  held := h.held
  stored p hp := h.stored p (hsub p hp)
  apart p hp := h.apart p (hsub p hp)

/-- The contents of the store's maps do not depend on a new one. -/
theorem map_content_append (h : s.Apart) (queries : Queries) :
    s.entries.map (content (s.maps ++ [queries])) = s.entries.map (content s.maps) :=
  OrderedMap.map_congr fun p hp => content_append (h.stored p hp) queries

/-- A change of a map that the caller holds is none of a map of the store. -/
theorem store_change (h : s.Apart) {number : Nat} (hn : number ∈ s.held) (queries : Queries) :
    store { s with maps := s.maps.set number queries } = s.store := by
  have hsame : s.entries.map (content (s.maps.set number queries))
      = s.entries.map (content s.maps) := by
    refine OrderedMap.map_congr fun p hp => content_set (fun he => ?_) queries
    exact h.apart p hp (he ▸ hn)
  rw [store, store, hsame]

theorem store_keep (h : s.Apart) (key : Text) (queries : Queries) :
    store { s with
      maps := s.maps ++ [queries], entries := s.entries.renew key s.maps.length }
      = s.store.set key queries := by
  have hrenew := OrderedMap.renew_map (content (s.maps ++ [queries])) s.entries key s.maps.length
  rw [content_length, map_content_append h] at hrenew
  rw [store, ← hrenew]
  rfl

/-! ## The same replies -/

theorem serve_get_some {key : Text} {number : Nat} (hn : s.entries.get? key = some number) :
    s.serve (.get key) = (.queries (some (content s.maps number)), { s with
      maps := s.maps ++ [content s.maps number]
      held := s.held ++ [s.maps.length]
      counters := s.counters.hit }) := by
  rw [serve, hn]

theorem serve_get_none {key : Text} (hn : s.entries.get? key = none) :
    s.serve (.get key) = (.queries none, { s with counters := s.counters.miss }) := by
  rw [serve, hn]

/-- **A request to the store of objects is one to the store of values.** -/
theorem serve_spec (h : s.Apart) (r : Request) :
    (s.serve r).1 = (s.store.reply r).1 ∧ (s.serve r).2.store = (s.store.reply r).2 ∧
      (s.serve r).2.Apart := by
  cases r with
  | set key queries => exact ⟨rfl, store_keep h key queries, h.keep key queries⟩
  | get key =>
    have hget : s.store.entries.get? key = (s.entries.get? key).map (content s.maps) :=
      OrderedMap.get?_map _ _ _
    cases hn : s.entries.get? key with
    | some number =>
      rw [hn, Option.map_some] at hget
      rw [serve_get_some hn, reply_get, hget]
      refine ⟨rfl, ?_, h.hold _ _⟩
      exact congrArg (MemoryStore.mk · s.counters.hit) (map_content_append h _)
    | none =>
      rw [hn, Option.map_none] at hget
      rw [serve_get_none hn, reply_get, hget]
      exact ⟨rfl, rfl, h.held, h.stored, h.apart⟩
  | discard key =>
    refine ⟨?_, ?_, h.drop fun p hp => List.mem_of_mem_filter hp⟩
    · exact congrArg Reply.truth (OrderedMap.contains_map _ _ _).symm
    · exact congrArg (MemoryStore.mk · s.counters) (OrderedMap.erase_map _ _ _).symm
  | contains key =>
    exact ⟨congrArg Reply.truth (OrderedMap.contains_map _ _ _).symm, rfl, h⟩
  | size => exact ⟨congrArg Reply.number (OrderedMap.size_map _ _).symm, rfl, h⟩
  | clear => exact ⟨rfl, rfl, h.drop (List.forall_mem_nil _)⟩
  | keys => exact ⟨congrArg Reply.keys (OrderedMap.keys_map _ _).symm, rfl, h⟩
  | stats =>
    refine ⟨?_, rfl, h⟩
    exact congrArg (fun n => Reply.stats ⟨s.counters, s.counters.hitRate, n⟩)
      (OrderedMap.size_map _ _).symm

theorem ask_spec (h : s.Apart) (r : Request) :
    (s.ask r).Apart ∧ (s.ask r).log = s.log ++ [(r, (s.store.reply r).1)] ∧
      (s.ask r).store = (s.store.reply r).2 := by
  obtain ⟨hreply, hstore, hheld, hstored, hapart⟩ := serve_spec h r
  rw [← hreply]
  exact ⟨⟨hheld, hstored, hapart⟩, rfl, hstore⟩

/-- A step asks for something, or it leaves the store as it is. -/
theorem step_spec (h : s.Apart) (action : Action) :
    (s.step action).Apart ∧
      ((s.step action).log = s.log ∧ (s.step action).store = s.store ∨
        ∃ r, (s.step action).log = s.log ++ [(r, (s.store.reply r).1)] ∧
          (s.step action).store = (s.store.reply r).2) := by
  cases action with
  | make queries =>
    refine ⟨h.hold queries s.counters, Or.inl ⟨rfl, ?_⟩⟩
    exact congrArg (MemoryStore.mk · s.counters) (map_content_append h queries)
  | change place queries =>
    rw [step]
    split
    · next number hn =>
      have hmem := List.mem_of_getElem? hn
      refine ⟨⟨?_, ?_, h.apart⟩, Or.inl ⟨rfl, store_change h hmem queries⟩⟩
      · simpa using h.held
      · simpa using h.stored
    · exact ⟨h, Or.inl ⟨rfl, rfl⟩⟩
  | pass key place =>
    rw [step]
    split
    · next number hn =>
      obtain ⟨hapart, hasked⟩ := ask_spec h (.set key (content s.maps number))
      exact ⟨hapart, Or.inr ⟨_, hasked⟩⟩
    · exact ⟨h, Or.inl ⟨rfl, rfl⟩⟩
  | ask r =>
    obtain ⟨hapart, hasked⟩ := ask_spec h r
    exact ⟨hapart, Or.inr ⟨r, hasked⟩⟩

/-- **A session with the store of objects is one with the store of values.** -/
theorem answers_run (h : s.Apart) (actions : List Action) :
    ∃ rs, asked (s.run actions).log = asked s.log ++ rs ∧
      (s.run actions).log.map (·.2.answer)
        = s.log.map (·.2.answer) ++ (Store.memory s.store).answers (rs.map .request) := by
  induction actions generalizing s with
  | nil => exact ⟨[], (List.append_nil _).symm, (List.append_nil _).symm⟩
  | cons action actions ih =>
    have hrun : s.run (action :: actions) = (s.step action).run actions := rfl
    obtain ⟨hapart, hstep⟩ := step_spec h action
    obtain ⟨rs, hasked, hanswers⟩ := ih hapart
    rw [hrun, hasked, hanswers]
    rcases hstep with ⟨hlog, hstore⟩ | ⟨r, hlog, hstore⟩
    · exact ⟨rs, by rw [hlog], by rw [hlog, hstore]⟩
    · refine ⟨r :: rs, ?_, ?_⟩
      · rw [hlog, asked_concat, List.append_assoc]
        rfl
      · rw [hlog, hstore, List.map_cons, Store.answers, perform_memory]
        simp

/-- A session of requests only has all of them in its log. -/
theorem asked_run (s : Session) (rs : List Request) :
    asked (s.run (rs.map .ask)).log = asked s.log ++ rs := by
  induction rs generalizing s with
  | nil => exact (List.append_nil _).symm
  | cons r rs ih =>
    have hrun : s.run ((r :: rs).map .ask) = (s.ask r).run (rs.map .ask) := rfl
    have hlog : asked (s.ask r).log = asked s.log ++ [r] := asked_concat s.log r _
    rw [hrun, ih, hlog, List.append_assoc]
    rfl

end Session

end PageQueries.MemoryStore
