import Mathlib.Data.List.Forall2
import PageQueries.Proofs.Preprocessor.Phases
import PageQueries.Proofs.Record
import PageQueries.Proofs.Text.Line

/-!
# A markup phase that fails changes nothing

The markup phase can fail while it extracts the page's queries, or while it
reads what was extracted as records, item by item. Both come before anything is
stored, so a failure at any item leaves the store as it was, and what an earlier
run stored for the page can still be had.

`Gives item r` says what an item is: a record, or a value that describes one.
`Refuses h content filename e` says why extraction ends with the error `e`.

Results:
* `readItems_eq_ok_iff`, `readItems_eq_error_iff`: items are read in order, up to
  the first that is no record.
* `records_eq_error_iff`: the errors of the extraction, all of them.
* `markup_congr`: the phase looks at the records only, not at how they are given.
* `markup_failure_harmless`: the ways through the markup phase.
-/
namespace PageQueries

/-- The record that an item is, or that its value describes. -/
inductive ExtractedItem.Gives : ExtractedItem → Record → Prop
  | record (r : Record) : Gives (.record r) r
  | value {members : List (Text × Json)} {r : Record} (h : r.Describes members) :
    Gives (.value (.object members)) r

namespace Preprocessor

/-- Why the queries of a page cannot be extracted: the extractor fails, or an item is the first that
is no record. -/
inductive Refuses (h : Hooks) (content filename : Text) : PageError → Prop
  | raised {cause : Text} (hx : h.extract content = .error cause) :
    Refuses h content filename (.extraction filename cause)
  | invalid {before after : List ExtractedItem} {v : Json} {violations : List Violation}
    (hx : h.extract content = .ok (before ++ .value v :: after))
    (hbefore : ∀ item ∈ before, ∃ r, item.Gives r) (hv : Record.ofJson v = .error violations) :
    Refuses h content filename (.invalidRecord violations)

variable {h : Hooks} {p : Preprocessor} {content filename : Text} {item : ExtractedItem}
  {items : List ExtractedItem} {rs : List Record} {r : Record} {e : PageError}

/-! ## Items -/

theorem readItem_eq_ok_iff : readItem item = .ok r ↔ item.Gives r := by
  cases item with
  | record r' =>
    constructor
    · rintro ⟨⟩
      exact .record r
    · rintro ⟨⟩
      rfl
  | value v =>
    rw [readItem, mapError_eq_ok_iff, Record.ofJson_eq_ok_iff]
    constructor
    · rintro ⟨members, rfl, hd⟩
      exact .value hd
    · rintro ⟨⟩
      exact ⟨_, rfl, ‹_›⟩

theorem readItem_eq_error_iff :
    readItem item = .error e ↔
      ∃ v violations, item = .value v ∧ Record.ofJson v = .error violations ∧
        e = .invalidRecord violations := by
  cases item with
  | record r => simp [readItem]
  | value v =>
    rw [readItem, mapError_eq_error_iff]
    constructor
    · rintro ⟨violations, hv, rfl⟩
      exact ⟨v, violations, rfl, hv, rfl⟩
    · rintro ⟨_, violations, ⟨⟩, hv, rfl⟩
      exact ⟨violations, hv, rfl⟩

theorem readItems_cons_eq_ok_iff :
    readItems (item :: items) = .ok rs ↔
      ∃ r, item.Gives r ∧ ∃ rs', readItems items = .ok rs' ∧ r :: rs' = rs := by
  simp only [readItems, bind_eq_ok_iff, readItem_eq_ok_iff, pure, Except.pure, Except.ok.injEq]

theorem readItems_cons_eq_error_iff :
    readItems (item :: items) = .error e ↔
      readItem item = .error e ∨ (∃ r, item.Gives r) ∧ readItems items = .error e := by
  simp only [readItems, bind_eq_error_iff, readItem_eq_ok_iff, pure, Except.pure, reduceCtorEq,
    and_false, exists_false, or_false, exists_and_right]

theorem readItems_eq_ok_iff :
    readItems items = .ok rs ↔ List.Forall₂ ExtractedItem.Gives items rs := by
  induction items generalizing rs with
  | nil => rw [List.forall₂_nil_left_iff, readItems, Except.ok.injEq, eq_comm]
  | cons item items ih =>
    rw [readItems_cons_eq_ok_iff, List.forall₂_cons_left_iff]
    simp only [ih, eq_comm, exists_and_left]

/-- Items are read in order, up to the first that is no record. -/
theorem readItems_eq_error_iff :
    readItems items = .error e ↔
      ∃ before item after, items = before ++ item :: after ∧
        (∀ i ∈ before, ∃ r, i.Gives r) ∧ readItem item = .error e := by
  induction items with
  | nil => simp [readItems]
  | cons item items ih =>
    rw [readItems_cons_eq_error_iff, ih]
    constructor
    · rintro (he | ⟨hr, before, item', after, rfl, hbefore, he⟩)
      · exact ⟨[], item, items, rfl, fun _ hi => absurd hi List.not_mem_nil, he⟩
      · exact ⟨item :: before, item', after, rfl, List.forall_mem_cons.mpr ⟨hr, hbefore⟩, he⟩
    · rintro ⟨before, item', after, hitems, hbefore, he⟩
      rcases List.cons_eq_append_iff.mp hitems with ⟨rfl, hcons⟩ | ⟨before, rfl, rfl⟩
      · obtain ⟨rfl, -⟩ := List.cons.inj hcons
        exact .inl he
      · rw [List.forall_mem_cons] at hbefore
        exact .inr ⟨hbefore.1, before, item', after, rfl, hbefore.2, he⟩

/-! ## Pages -/

/-- The errors of the extraction. -/
theorem records_eq_error_iff :
    records h content filename = .error e ↔ Refuses h content filename e := by
  unfold records
  constructor
  · intro he
    split at he
    · next cause hx =>
      cases he
      exact .raised hx
    · next items hx =>
      obtain ⟨before, item, after, rfl, hbefore, hr⟩ := readItems_eq_error_iff.mp he
      obtain ⟨v, violations, rfl, hv, rfl⟩ := readItem_eq_error_iff.mp hr
      exact .invalid hx hbefore hv
  · intro he
    cases he with
    | raised hx => rw [hx]
    | invalid hx hbefore hv =>
      rw [hx]
      exact readItems_eq_error_iff.mpr
        ⟨_, _, _, rfl, hbefore, readItem_eq_error_iff.mpr ⟨_, _, rfl, hv, rfl⟩⟩

theorem records_eq_ok_iff :
    records h content filename = .ok rs ↔
      ∃ items, h.extract content = .ok items ∧ List.Forall₂ ExtractedItem.Gives items rs := by
  unfold records
  cases hx : h.extract content with
  | error cause => simp
  | ok items => simp [readItems_eq_ok_iff]

/-- Extraction fails if and only if the extractor does or some item is no record. -/
theorem exists_refuses_iff :
    (∃ e, Refuses h content filename e) ↔
      (∃ cause, h.extract content = .error cause) ∨
        ∃ items, h.extract content = .ok items ∧ ∃ item ∈ items, ∀ r, ¬ item.Gives r := by
  constructor
  · rintro ⟨e, he⟩
    cases he with
    | raised hx => exact .inl ⟨_, hx⟩
    | @invalid _ _ v _ hx _ hv =>
      refine .inr ⟨_, hx, .value v, List.mem_append_right _ List.mem_cons_self, fun r hgives => ?_⟩
      have hread := readItem_eq_error_iff.mpr ⟨v, _, rfl, hv, rfl⟩
      cases hread.symm.trans (readItem_eq_ok_iff.mpr hgives)
  · rintro (⟨cause, hx⟩ | ⟨items, hx, hinvalid⟩)
    · exact ⟨_, .raised hx⟩
    · obtain ⟨before, item, after, rfl, hbefore, hitem⟩ := Text.exists_first hinvalid
      have hvalid : ∀ i ∈ before, ∃ r, i.Gives r := fun i hi => by
        simpa only [not_forall, not_not] using hbefore i hi
      cases hr : readItem item with
      | ok r => exact absurd (readItem_eq_ok_iff.mp hr) (hitem r)
      | error e =>
        obtain ⟨v, violations, rfl, hv, -⟩ := readItem_eq_error_iff.mp hr
        exact ⟨_, .invalid hx hvalid hv⟩

/-! ## The phase -/

theorem markup_answer_eq_error_iff (hm : p.handles filename = true) :
    (p.markup h content filename).answer = .error e ↔ Refuses h content filename e := by
  rw [← records_eq_error_iff]
  cases hr : records h content filename with
  | error e' => simp [markup_error hm hr]
  | ok rs => simp [markup_ok hm hr]

/-- The phase looks at the records only, not at how they are given. -/
theorem markup_congr {extract extract' : Text → Except Text (List ExtractedItem)}
    {items' : List ExtractedItem} (hx : extract content = .ok items)
    (hx' : extract' content = .ok items') (hall : List.Forall₂ ExtractedItem.Gives items rs)
    (hall' : List.Forall₂ ExtractedItem.Gives items' rs) :
    p.markup { h with extract } content filename
      = p.markup { h with extract := extract' } content filename := by
  cases hm : p.handles filename with
  | false => rw [markup_unmanaged hm, markup_unmanaged hm]
  | true =>
    have hr : records { h with extract } content filename = .ok rs :=
      records_eq_ok_iff.mpr ⟨items, hx, hall⟩
    have hr' : records { h with extract := extract' } content filename = .ok rs :=
      records_eq_ok_iff.mpr ⟨items', hx', hall'⟩
    rw [markup_ok hm hr, markup_ok hm hr']
    rfl

/-- **A markup phase that fails changes nothing.** A page that is not managed is left alone. A
managed one fails exactly if its queries cannot be extracted, with the error that says why, and
then the preprocessor is as it was, with its store and the counters of the store. Otherwise the
page's queries are stored, and it makes no difference how the records were given. -/
theorem markup_failure_harmless (h : Hooks) (p : Preprocessor) (content filename : Text) :
    (p.handles filename = false → p.markup h content filename = ⟨.ok none, p, []⟩) ∧
    (p.handles filename = true →
      (∀ e, (p.markup h content filename).answer = .error e ↔ Refuses h content filename e) ∧
      ((∃ e, Refuses h content filename e) ↔
        (∃ cause, h.extract content = .error cause) ∨
          ∃ items, h.extract content = .ok items ∧ ∃ item ∈ items, ∀ r, ¬ item.Gives r) ∧
      (∀ e, Refuses h content filename e → p.markup h content filename = ⟨.error e, p, []⟩) ∧
      ∀ items rs, h.extract content = .ok items → List.Forall₂ ExtractedItem.Gives items rs →
        p.markup h content filename = ⟨.ok (some (withViews h content rs)),
          { p with store := p.store.set (h.routeKey filename) (queriesOf rs) }, []⟩ ∧
        ∀ items', List.Forall₂ ExtractedItem.Gives items' rs →
          p.markup { h with extract := fun _ => .ok items' } content filename
            = p.markup h content filename) ∧
    (∀ cause, (PageError.extraction filename cause).message
      = "Failed to extract queries from ".toList ++ filename ++ ": ".toList ++ cause) ∧
    ∀ r : Record, (ExtractedItem.value r.toJson).Gives r := by
  refine ⟨markup_unmanaged, fun hm => ⟨fun e => markup_answer_eq_error_iff hm, exists_refuses_iff,
    fun e he => markup_error hm (records_eq_error_iff.mpr he), ?_⟩, fun _ => rfl,
    fun r => readItem_eq_ok_iff.mp ?_⟩
  · intro items rs hx hall
    exact ⟨markup_ok hm (records_eq_ok_iff.mpr ⟨items, hx, hall⟩),
      fun items' hall' => markup_congr rfl hx hall' hall⟩
  · rw [readItem, Record.ofJson_toJson, mapError_ok]

/-- A preprocessor with an entry for `a.md`, if the name of a file is its route key. -/
def oneEntry : Preprocessor :=
  ⟨.default,
    .memory (MemoryStore.new.set "a.md".toList (.ofList [("q".toList, "select 1".toList)]))⟩

/-- What extracts the same from every page. -/
def extracting (found : Except Text (List ExtractedItem)) : Hooks :=
  { Hooks.default with extract := fun _ => found, routeKey := id }

/-- The record of one query. -/
def recordOf (id : String) : Record := ⟨id.toList, "select 2".toList, false, []⟩

/-- The object of a query without a text. -/
def untold : Json := .object [("id".toList, .text "b".toList), ("inline".toList, .int 2)]

theorem markup_failure_harmless_oneEntry :
    oneEntry.handles "a.txt".toList = false ∧ oneEntry.handles "a.md".toList = true ∧
    oneEntry.markup (extracting (.error "torn".toList)) [] "a.txt".toList
      = ⟨.ok none, oneEntry, []⟩ ∧
    oneEntry.markup (extracting (.error "torn".toList)) [] "a.md".toList
      = ⟨.error (.extraction "a.md".toList "torn".toList), oneEntry, []⟩ ∧
    oneEntry.markup (extracting
        (.ok [.record (recordOf "a"), .value untold, .record (recordOf "c"), .value .null])) []
        "a.md".toList
      = ⟨.error (.invalidRecord [⟨["compiled_query_string".toList], .missing, untold⟩,
          ⟨["inline".toList], .boolUnreadable, .int 2⟩]), oneEntry, []⟩ ∧
    (oneEntry.store.get "a.md".toList).1
      = .ok (some (.ofList [("q".toList, .text "select 1".toList)])) ∧
    oneEntry.markup (extracting (.ok [.record (recordOf "a"), .value (recordOf "b").toJson])) []
        "a.md".toList
      = oneEntry.markup (extracting (.ok [.value (recordOf "a").toJson, .record (recordOf "b")])) []
        "a.md".toList := by
  have hu : oneEntry.handles "a.txt".toList = false := by decide +kernel
  have hm : oneEntry.handles "a.md".toList = true := by decide +kernel
  have hv : Record.ofJson untold = .error [⟨["compiled_query_string".toList], .missing, untold⟩,
      ⟨["inline".toList], .boolUnreadable, .int 2⟩] := by rfl
  have hfails (found : Except Text (List ExtractedItem)) :=
    (markup_failure_harmless (extracting found) oneEntry [] "a.md".toList).2.1 hm
  have hbefore : ∀ item ∈ [ExtractedItem.record (recordOf "a")], ∃ r, item.Gives r := fun item hi =>
    ⟨recordOf "a", List.mem_singleton.mp hi ▸ .record _⟩
  have hvalue := (markup_failure_harmless (extracting (.ok [])) oneEntry [] []).2.2.2
  refine ⟨hu, hm, (markup_failure_harmless _ _ _ _).1 hu, (hfails _).2.2.1 _ (.raised rfl),
    (hfails _).2.2.1 _ (.invalid rfl hbefore hv), rfl, ?_⟩
  exact ((hfails _).2.2.2 _ [recordOf "a", recordOf "b"] rfl
    (.cons (hvalue _) (.cons (.record _) .nil))).2 _ (.cons (.record _) (.cons (hvalue _) .nil))

end Preprocessor

end PageQueries
