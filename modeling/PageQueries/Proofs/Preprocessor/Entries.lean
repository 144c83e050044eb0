import PageQueries.Proofs.Classification.Unique
import PageQueries.Proofs.Preprocessor.Failure

/-!
# The entry of a page

The two phases of a page have nothing in common but its entry in the store: the
markup phase writes it, and the script phase binds the queries in it. Which
queries these are, and whether a phase gets that far, is said here of the page,
its name and the attributes of its script alone. The extracted items are
records, and the records gather queries: each name stands where it comes first,
and has the text that comes last.

Results:
* `gathers_queriesOf`, `Gathers.unique`: what becomes of a page's records, and
  that it is determined.
* `writes_iff`, `binds_iff`: when the phases get to the store.
-/
namespace PageQueries

variable {rs : List Record} {queries queries' : Queries}

/-- The queries are those of the records: each name stands where it comes first, and has the text
that comes last. -/
structure Gathers (records : List Record) (queries : Queries) : Prop where
  order : Firsts (records.map Record.id) queries.keys
  last : ∀ id, queries.get? id = (records.reverse.find? (·.id = id)).map Record.text

theorem gathers_queriesOf (records : List Record) :
    Gathers records (Preprocessor.queriesOf records) := by
  induction records using List.reverseRecOn with
  | nil => exact ⟨.nil, fun _ => rfl⟩
  | append_singleton records r ih =>
    have hstep : Preprocessor.queriesOf (records ++ [r])
        = (Preprocessor.queriesOf records).insert r.id r.text := by
      simp only [Preprocessor.queriesOf, List.map_append, List.map_cons, List.map_nil,
        OrderedMap.ofList_concat]
    rw [hstep]
    refine ⟨?_, fun id => ?_⟩
    · rw [OrderedMap.keys_insert, List.map_append]
      split
      · rename_i h
        exact .again (ih.order.mem_iff.mp h) ih.order
      · rename_i h
        exact .first (mt ih.order.mem_iff.mpr h) ih.order
    · rw [OrderedMap.get?_insert, List.reverse_concat, List.find?_cons, ih.last id]
      by_cases h : id = r.id
      · simp [h]
      · simp [h, Ne.symm h]

theorem Gathers.unique (h : Gathers rs queries) (h' : Gathers rs queries') :
    queries = queries' :=
  OrderedMap.ext_get? (h.order.eq_unique.trans h'.order.eq_unique.symm) fun id =>
    (h.last id).trans (h'.last id).symm

namespace Preprocessor

/-- The markup phase of a page writes these queries: the page has the managed extension, what is
extracted from it are records, and they gather the queries. -/
structure Writes (h : Hooks) (s : Settings) (content filename : Text) (queries : Queries) :
    Prop where
  managed : s.extension <:+ filename
  gathered : ∃ items records, h.extract content = .ok items ∧
    List.Forall₂ ExtractedItem.Gives items records ∧ Gathers records queries

/-- The script phase of a page binds queries: the page has the managed extension, and the script is
not the one of a module. -/
structure Binds (s : Settings) (filename : Text) (attributes : List (Text × Json)) : Prop where
  managed : s.extension <:+ filename
  noModule : attributes.lookup "context".toList ≠ some (.text "module".toList)

variable {h : Hooks} {s : Settings} {content filename : Text} {attributes : List (Text × Json)}

theorem manages_iff : s.manages filename = true ↔ s.extension <:+ filename :=
  List.isSuffixOf_iff_suffix

theorem isModule_iff : isModule attributes = true ↔
    attributes.lookup "context".toList = some (.text "module".toList) := by
  unfold isModule
  split
  · rename_i t ht
    rw [ht, decide_eq_true_eq, Option.some.injEq, Json.text.injEq]
  · rename_i hno
    exact ⟨fun h => (Bool.false_ne_true h).elim, fun h => absurd h (hno _)⟩

/-- A markup phase that does not fail writes what the code gathers. -/
theorem writes_iff : Writes h s content filename queries ↔
    s.manages filename = true ∧
      ∃ rs, records h content filename = .ok rs ∧ queriesOf rs = queries := by
  rw [manages_iff]
  constructor
  · rintro ⟨hm, items, rs, hx, hall, hg⟩
    exact ⟨hm, rs, records_eq_ok_iff.mpr ⟨items, hx, hall⟩, (gathers_queriesOf rs).unique hg⟩
  · rintro ⟨hm, rs, hr, rfl⟩
    obtain ⟨items, hx, hall⟩ := records_eq_ok_iff.mp hr
    exact ⟨hm, items, rs, hx, hall, gathers_queriesOf rs⟩

theorem Writes.unique (hq : Writes h s content filename queries)
    (hq' : Writes h s content filename queries') : queries = queries' := by
  obtain ⟨-, rs, hr, rfl⟩ := writes_iff.mp hq
  obtain ⟨-, rs', hr', rfl⟩ := writes_iff.mp hq'
  cases hr.symm.trans hr'
  rfl

theorem binds_iff :
    Binds s filename attributes ↔ (s.manages filename && !isModule attributes) = true := by
  rw [Bool.and_eq_true, Bool.not_eq_true', ← Bool.not_eq_true, manages_iff, isModule_iff]
  exact ⟨fun h => ⟨h.managed, h.noModule⟩, fun h => ⟨h.1, h.2⟩⟩

end Preprocessor

end PageQueries
