import Mathlib.Data.List.Nodup
import PageQueries.Proofs.Classification.Lists
import PageQueries.Proofs.Classification.Unique
import PageQueries.Proofs.Validation

/-!
# A classification divides the names of the queries

The five lists are made by filters over one another, and validation drops
repetitions from each. `Partitions` says what they amount to: the accepted and
the rejected names are two subsequences that make up all names, the static and
the reactive ones two that make up the accepted, and the lists that hold a name
tell the class of its text.

Results:
* `classesOf_classify`: the classes of a query, by its name and its text.
* `ofMembers_toJson`: lists without repetitions pass validation as they are.
* `classify_partitions`: all of this for the classification of any queries,
  with the warnings about it.
-/
namespace PageQueries

/-- A list that is made of two others, each in its own order. -/
inductive Interleaving {α : Type} : List α → List α → List α → Prop
  | nil : Interleaving [] [] []
  | left {a : α} {as bs cs : List α} (h : Interleaving as bs cs) :
    Interleaving (a :: as) bs (a :: cs)
  | right {b : α} {as bs cs : List α} (h : Interleaving as bs cs) :
    Interleaving as (b :: bs) (b :: cs)

/-- A test divides a list in two. -/
theorem interleaving_filter {α : Type} (p : α → Bool) (as : List α) :
    Interleaving (as.filter p) (as.filter (!p ·)) as := by
  induction as with
  | nil => exact .nil
  | cons a as ih =>
    cases h : p a with
    | false =>
      rw [List.filter_cons_of_neg (by simp [h]), List.filter_cons_of_pos (by simp [h])]
      exact .right ih
    | true =>
      rw [List.filter_cons_of_pos h, List.filter_cons_of_neg (by simp [h])]
      exact .left ih

theorem disjoint_filter {α : Type} (p : α → Bool) (as : List α) :
    (as.filter p).Disjoint (as.filter (!p ·)) := by
  intro a hp hn
  rw [List.mem_filter] at hp hn
  simp [hp.2] at hn

/-- The classes that a text of a class belongs to, the narrower last. -/
def Dependency.classes : Dependency → List Dependency
  | static => [static]
  | reactive => [reactive]
  | inputReactive => [reactive, inputReactive]

namespace Classification

open Dependency (ofText)

variable {queries : Queries} {q : Text × Text}

/-- What a classification says about the queries that it is made from. -/
structure Partitions (c : Classification) (queries : Queries) : Prop where
  queries_eq : c.queries = queries
  nodup_valid : c.valid.Nodup
  nodup_rejected : c.rejected.Nodup
  disjoint_rejected : c.valid.Disjoint c.rejected
  /-- Together the accepted and the rejected names are all names, in order. -/
  keys : Interleaving c.valid c.rejected queries.keys
  mem_valid_iff : ∀ id, id ∈ c.valid ↔
    id ∈ queries.keys ∧ Identifier.isIdentifier id = true ∧ Identifier.isReserved id = false
  disjoint_static : c.static.Disjoint c.reactive
  /-- Together the static and the reactive names are the accepted ones, in order. -/
  valid : Interleaving c.static c.reactive c.valid
  input : c.input.Sublist c.reactive
  classesOf_eq_nil_iff : ∀ q ∈ queries.toList, c.classesOf q.1 = [] ↔ q.1 ∈ c.rejected
  /-- The lists that hold an accepted name tell the class of its text. -/
  classesOf_eq : ∀ q ∈ queries.toList, q.1 ∈ c.valid → c.classesOf q.1 = (ofText q.2).classes

/-! ## The classes of a query -/

/-- Queries of one name are one query. -/
theorem eq_of_fst_eq {q q' : Text × Text} (h : q ∈ queries.toList) (h' : q' ∈ queries.toList)
    (heq : q.1 = q'.1) : q = q' := by
  have htext := textOf_of_mem h
  rw [heq, textOf_of_mem h'] at htext
  exact Prod.ext heq htext.symm

theorem mem_names_iff (hq : q ∈ queries.toList) (p : Text × Text → Bool) :
    q.1 ∈ ((accepted queries).filter p).map Prod.fst ↔
      Identifier.isAccepted q.1 = true ∧ p q = true := by
  constructor
  · intro h
    obtain ⟨q', hq', heq⟩ := List.mem_map.mp h
    obtain ⟨hacc, hp⟩ := List.mem_filter.mp hq'
    obtain rfl := eq_of_fst_eq (mem_of_mem_accepted hacc) hq heq
    exact ⟨(List.mem_filter.mp hacc).2, hp⟩
  · rintro ⟨hacc, hp⟩
    exact List.mem_map_of_mem (List.mem_filter.mpr ⟨List.mem_filter.mpr ⟨hq, hacc⟩, hp⟩)

theorem mem_rejected_iff (hq : q ∈ queries.toList) :
    q.1 ∈ (classify queries).rejected ↔ Identifier.isAccepted q.1 = false := by
  have hmem : q.1 ∈ queries.keys := List.mem_map_of_mem hq
  refine List.mem_filter.trans ((and_iff_right hmem).trans ?_)
  rw [Bool.not_eq_true']

/-- The lists that hold a query's name, by the gate and by the class of its text. -/
theorem classesOf_classify (hq : q ∈ queries.toList) :
    (classify queries).classesOf q.1
      = if Identifier.isAccepted q.1 then (ofText q.2).classes else [] := by
  have hstatic := mem_names_iff hq fun q => decide (ofText q.2 = .static)
  have hreactive := mem_names_iff hq fun q => decide (ofText q.2 ≠ .static)
  have hinput := mem_names_iff hq fun q => decide (ofText q.2 = .inputReactive)
  unfold classesOf
  simp only [List.contains_iff_mem, static_eq, reactive_eq, input_eq, fixed, debounced, subscribed,
    hstatic, hreactive, hinput]
  cases Identifier.isAccepted q.1 with
  | false => simp
  | true => cases ofText q.2 <;> simp [Dependency.classes]

theorem classes_ne_nil (d : Dependency) : d.classes ≠ [] := by
  cases d <;> exact List.cons_ne_nil _ _

/-! ## Validation -/

/-- The report on a classification whose lists are without repetitions passes validation as it is;
the metadata is not reported. -/
theorem ofMembers_toJson {c : Classification} (h : ∀ f, (c.get f).Nodup) :
    ∃ members, c.toJson = .object members ∧ ofMembers members = .ok { c with metadata := [] } := by
  refine ⟨_, rfl, ?_⟩
  have hids : ∀ f : ListField, checkIds f (.array ((c.get f).map .text)) = .ok (c.get f) := by
    intro f
    rw [checkIds, checkTexts_texts]
    exact congrArg Except.ok (unique_of_nodup (h f))
  have hqueries := checkTextMap_texts [queriesName] c.queries
  show Checked.ap (Checked.ap (Checked.ap (Checked.ap (Checked.ap (Checked.ap (.ok _)
      (checkTextMap [queriesName] (.object (c.queries.map .text).toList)))
      (checkIds .valid (.array ((c.get .valid).map .text))))
      (checkIds .reactive (.array ((c.get .reactive).map .text))))
      (checkIds .static (.array ((c.get .static).map .text))))
      (checkIds .input (.array ((c.get .input).map .text))))
      (checkIds .rejected (.array ((c.get .rejected).map .text))) = .ok { c with metadata := [] }
  rw [hqueries, hids, hids, hids, hids, hids]
  rfl

theorem nodup_get_classify (queries : Queries) (f : ListField) :
    ((classify queries).get f).Nodup := by
  cases f with
  | valid => exact nodup_valid queries
  | reactive => exact nodup_reactive queries
  | static => exact (nodup_valid queries).filter _
  | input => exact (nodup_reactive queries).filter _
  | rejected => exact queries.nodup.filter _

/-! ## The partition -/

theorem partitions_classify (queries : Queries) : (classify queries).Partitions queries where
  queries_eq := rfl
  nodup_valid := nodup_get_classify queries .valid
  nodup_rejected := nodup_get_classify queries .rejected
  disjoint_rejected := disjoint_filter Identifier.isAccepted queries.keys
  keys := interleaving_filter Identifier.isAccepted queries.keys
  mem_valid_iff := by
    intro id
    refine mem_valid.trans (and_congr_right fun _ => ?_)
    rw [Identifier.isAccepted, Bool.and_eq_true, Bool.not_eq_true']
  disjoint_static := by
    intro id hs hr
    exact (mem_static.mp hs).2 hr
  valid := by
    have hreactive : (classify queries).valid.filter
        (fun id => !!(classify queries).reactive.contains id) = (classify queries).reactive := by
      refine List.filter_congr fun id hid => ?_
      rw [Bool.not_not]
      exact contains_reactive hid
    have h := interleaving_filter (!(classify queries).reactive.contains ·) (classify queries).valid
    rw [hreactive] at h
    exact h
  input := List.filter_sublist
  classesOf_eq_nil_iff := by
    intro q hq
    rw [classesOf_classify hq, mem_rejected_iff hq]
    cases Identifier.isAccepted q.1 <;> simp [classes_ne_nil]
  classesOf_eq := by
    intro q hq hvalid
    rw [classesOf_classify hq, if_pos (mem_valid.mp hvalid).2]

/-- Warned of is each rejected name that is an identifier, in order. -/
theorem reservedWarnings_eq (queries : Queries) :
    reservedWarnings queries
      = ((classify queries).rejected.filter Identifier.isIdentifier).map .reservedName := by
  unfold reservedWarnings
  congr 1
  refine Eq.trans ?_ List.filter_filter.symm
  refine List.filter_congr fun id _ => ?_
  unfold Identifier.isAccepted
  cases Identifier.isIdentifier id <;> cases Identifier.isReserved id <;> rfl

/-- **The partition.** The classification of any queries divides their names by the gate and by
the classes of their texts, warns of each rejected identifier once and in order, and passes
validation as it is. -/
theorem classify_partitions (queries : Queries) :
    (classify queries).Partitions queries ∧
    reservedWarnings queries
      = ((classify queries).rejected.filter Identifier.isIdentifier).map .reservedName ∧
    ∃ members, (classify queries).toJson = .object members ∧
      ofMembers members = .ok (classify queries) :=
  ⟨partitions_classify queries, reservedWarnings_eq queries,
    ofMembers_toJson (nodup_get_classify queries)⟩

end Classification

end PageQueries
