import PageQueries.Proofs.Except
import PageQueries.Proofs.Script.Code
import PageQueries.Proofs.Text.Line

/-!
# Names without a query

A classification may be read from JSON or changed field by field, so its lists
may hold names that no query has. Two of the five lists are looked up in the
queries while the bindings are made: the accepted names for their texts, and
behind them the names that read inputs. The first name that is not there is
told, and no bindings are made. A static or a reactive name is written down
without a look at the queries.

Results:
* `lookUp_eq_error_iff`: looking up a list of names fails at the first that is
  missing.
* `blocks_eq_error_iff`: the accepted names and the names that read inputs are
  looked up as one list.
* `declarations_outcome`: what becomes of any classification, and that
  `classify` makes none that fails.
-/
namespace PageQueries.Script

open Classification (classify)

/-- The first of some names that no query has. -/
def FirstMissing (queries : Queries) (ids : List Text) (id : Text) : Prop :=
  ∃ before after, ids = before ++ id :: after ∧ (∀ k ∈ before, k ∈ queries.keys) ∧
    id ∉ queries.keys

variable {queries : Queries} {ids later : List Text} {id k : Text}

theorem firstMissing_cons_of_mem (hk : k ∈ queries.keys) :
    FirstMissing queries (k :: ids) id ↔ FirstMissing queries ids id := by
  constructor
  · intro h
    obtain ⟨before, after, he, hbefore, hid⟩ := h
    cases before with
    | nil =>
      obtain ⟨rfl, -⟩ := List.cons.inj he
      exact absurd hk hid
    | cons l before =>
      obtain ⟨rfl, rfl⟩ := List.cons.inj he
      exact ⟨before, after, rfl, (List.forall_mem_cons.mp hbefore).2, hid⟩
  · intro h
    obtain ⟨before, after, rfl, hbefore, hid⟩ := h
    exact ⟨k :: before, after, rfl, List.forall_mem_cons.mpr ⟨hk, hbefore⟩, hid⟩

theorem firstMissing_cons_of_notMem (hk : k ∉ queries.keys) :
    FirstMissing queries (k :: ids) id ↔ k = id := by
  constructor
  · intro h
    obtain ⟨before, after, he, hbefore, -⟩ := h
    cases before with
    | nil => exact (List.cons.inj he).1
    | cons l before =>
      obtain ⟨rfl, -⟩ := List.cons.inj he
      exact absurd (hbefore k List.mem_cons_self) hk
  · intro h
    exact ⟨[], ids, by rw [h]; rfl, List.forall_mem_nil _, h ▸ hk⟩

/-- Some name is missing exactly if there is a first one. -/
theorem exists_firstMissing_iff :
    (∃ id, FirstMissing queries ids id) ↔ ∃ id ∈ ids, id ∉ queries.keys := by
  constructor
  · intro h
    obtain ⟨id, before, after, rfl, -, hid⟩ := h
    exact ⟨id, by simp, hid⟩
  · intro h
    obtain ⟨before, id, after, rfl, hbefore, hid⟩ := Text.exists_first h
    exact ⟨id, before, after, rfl, fun k hk => not_not.mp (hbefore k hk), hid⟩

/-! ## Looking names up -/

theorem lookUp_eq_error_iff : lookUp queries ids = .error id ↔ FirstMissing queries ids id := by
  induction ids with
  | nil => simp [lookUp, FirstMissing]
  | cons k ids ih =>
    unfold lookUp
    split
    · next hk =>
      rw [firstMissing_cons_of_notMem ((queries.get?_eq_none_iff k).mp hk), Except.error.injEq]
    · next text hk =>
      have hmem : k ∈ queries.keys := (queries.isSome_get?_iff k).mp (by rw [hk]; rfl)
      rw [firstMissing_cons_of_mem hmem, ← ih]
      cases lookUp queries ids <;> simp [Except.map]

/-- Names are looked up one after another, so two lists are looked up as one. -/
theorem lookUp_append :
    lookUp queries (ids ++ later)
      = lookUp queries ids >>= fun texts => (lookUp queries later).map (texts ++ ·) := by
  induction ids with
  | nil =>
    show lookUp queries later = (lookUp queries later).map ([] ++ ·)
    cases lookUp queries later <;> simp [Except.map]
  | cons k ids ih =>
    rw [List.cons_append, lookUp, lookUp]
    split
    · rfl
    · rw [ih]
      cases lookUp queries ids <;> cases lookUp queries later <;>
        simp [bind, Except.bind, Except.map]

/-! ## Making bindings -/

variable {c : Classification}

/-- Blocks are made unless a name is missing among those that are looked up. -/
theorem blocks_eq_error_iff (options : Options) :
    blocks c options = .error id ↔ FirstMissing c.queries (c.valid ++ c.input) id := by
  rw [← lookUp_eq_error_iff, lookUp_append]
  unfold blocks
  cases lookUp c.queries c.valid <;> cases lookUp c.queries c.input <;>
    simp [bind, Except.bind, Except.map, pure, Except.pure]

theorem declarations_of_no_names (h : c.valid = []) (options : Options) :
    declarations c options = .ok [] := by
  simp [declarations, Classification.isEmpty, h]

theorem declarations_of_names (h : c.valid ≠ []) (options : Options) :
    declarations c options = (blocks c options).map fun bs => joinBlocks (bs.map Block.text) := by
  simp [declarations, Classification.isEmpty, h]

theorem declarations_eq_error_iff (options : Options) :
    declarations c options = .error id ↔
      c.valid ≠ [] ∧ FirstMissing c.queries (c.valid ++ c.input) id := by
  by_cases h : c.valid = []
  · simp [declarations_of_no_names h, h]
  · rw [declarations_of_names h, ← blocks_eq_error_iff options]
    cases blocks c options <;> simp [Except.map, h]

/-- The bindings of some names are never void: the imports stand in front. -/
theorem ne_nil_of_declarations {t : Text} {options : Options} (h : c.valid ≠ [])
    (ht : declarations c options = .ok t) : t ≠ [] := by
  rw [declarations_of_names h, map_eq_ok_iff] at ht
  obtain ⟨bs, hbs, rfl⟩ := ht
  obtain ⟨texts, -, hbs⟩ := bind_eq_ok_iff.mp hbs
  obtain ⟨inputs, -, hbs⟩ := bind_eq_ok_iff.mp hbs
  obtain rfl := Except.ok.inj hbs
  rw [joinBlocks_text]
  exact Code.render_paragraphs_ne_nil (Block.text_ne_nil (.imports options.package)) _

/-- **When bindings cannot be made.** For a classification of any kind, its lists in agreement or
not: without accepted names the bindings are empty; else they fail exactly if a name that is
accepted, or one that reads inputs, has no query, and tell the first such name. What the other
lists hold does not matter, and for the classification of a page's own queries none is missing. -/
theorem declarations_outcome (c : Classification) (options : Options) :
    (c.valid = [] → declarations c options = .ok []) ∧
    (c.valid ≠ [] →
      ((∃ id, declarations c options = .error id) ↔
        ∃ id ∈ c.valid ++ c.input, id ∉ c.queries.keys) ∧
      (∀ id, declarations c options = .error id ↔
        FirstMissing c.queries (c.valid ++ c.input) id) ∧
      ((∀ id ∈ c.valid ++ c.input, id ∈ c.queries.keys) →
        ∃ t, declarations c options = .ok t ∧ t ≠ [])) ∧
    (∀ static reactive rejected id,
      declarations { c with static, reactive, rejected } options = .error id ↔
        declarations c options = .error id) ∧
    ∀ queries : Queries, ∃ t, declarations (classify queries) options = .ok t := by
  refine ⟨fun h => declarations_of_no_names h options, fun h => ⟨?_, ?_, ?_⟩, ?_, ?_⟩
  · rw [← exists_firstMissing_iff]
    exact exists_congr fun id => (declarations_eq_error_iff options).trans (and_iff_right h)
  · exact fun id => (declarations_eq_error_iff options).trans (and_iff_right h)
  · intro hall
    cases ht : declarations c options with
    | ok t => exact ⟨t, rfl, ne_nil_of_declarations h ht⟩
    | error id =>
      obtain ⟨-, hfirst⟩ := (declarations_eq_error_iff options).mp ht
      obtain ⟨k, hk, hmissing⟩ := exists_firstMissing_iff.mp ⟨id, hfirst⟩
      exact absurd (hall k hk) hmissing
  · intro static reactive rejected id
    rw [declarations_eq_error_iff, declarations_eq_error_iff]
  · exact fun queries => ⟨_, declarations_classify queries options⟩

/-- Three names have no query: `b`, `c` and `x`. -/
def lostNames : Classification where
  queries := .ofList [("a".toList, "select 1".toList)]
  valid := ["a".toList, "b".toList]
  static := ["x".toList]
  reactive := []
  input := ["c".toList, "a".toList]
  rejected := []

/-- Told is the first of those that are looked up. -/
theorem declarations_outcome_lostNames :
    lostNames.valid ≠ [] ∧ declarations lostNames ⟨200, []⟩ = .error "b".toList := by
  have hvalid : lostNames.valid ≠ [] := List.cons_ne_nil _ _
  have hfirst : FirstMissing lostNames.queries (lostNames.valid ++ lostNames.input) "b".toList :=
    ⟨["a".toList], ["c".toList, "a".toList], rfl, by decide, by decide⟩
  obtain ⟨-, houtcome, -⟩ := declarations_outcome lostNames ⟨200, []⟩
  exact ⟨hvalid, ((houtcome hvalid).2.1 "b".toList).mpr hfirst⟩

end PageQueries.Script
