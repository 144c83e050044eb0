import PageQueries.Proofs.Dependency
import PageQueries.Proofs.Script.Build

/-!
# The lists of a classification

`Classification.classify` fills its lists one from another: names that the gate
accepts, of those the reactive ones, of those the ones that read inputs, and the
static ones as what is left. `Dependency.ofText` looks at one text and asks in
another order. Here each list is read off the accepted queries, the pairs of
name and text, by the class of the text alone. A marker that reads inputs is a
marker (`Dependency.isReactive_of_readsInputs`), so the two orders of asking
agree.

Results:
* `valid_eq`, `static_eq`, `reactive_eq`, `input_eq`: the lists as names of
  accepted queries.
-/
namespace PageQueries

namespace Classification

open Dependency (ofText)

variable {queries : Queries} {q : Text × Text}

/-- The queries whose names the gate accepts, in order. -/
def accepted (queries : Queries) : List (Text × Text) :=
  queries.toList.filter fun q => Identifier.isAccepted q.1

/-- The queries that run whenever their texts change. -/
def debounced (accepted : List (Text × Text)) : List (Text × Text) :=
  accepted.filter fun q => ofText q.2 ≠ .static

/-- The queries that run once. -/
def fixed (accepted : List (Text × Text)) : List (Text × Text) :=
  accepted.filter fun q => ofText q.2 = .static

/-- The queries that run whenever the inputs change on the server. -/
def subscribed (accepted : List (Text × Text)) : List (Text × Text) :=
  accepted.filter fun q => ofText q.2 = .inputReactive

theorem textOf_of_mem (h : q ∈ queries.toList) : queries.textOf q.1 = q.2 := by
  rw [Queries.textOf, (OrderedMap.get?_eq_some_iff queries q.1 q.2).mpr h]
  rfl

theorem mem_of_mem_accepted (h : q ∈ accepted queries) : q ∈ queries.toList :=
  (List.mem_filter.mp h).1

theorem nodup_accepted (queries : Queries) : ((accepted queries).map Prod.fst).Nodup :=
  queries.nodup.sublist (List.filter_sublist.map Prod.fst)

theorem valid_eq (queries : Queries) :
    (classify queries).valid = (accepted queries).map Prod.fst :=
  List.filter_map

/-- Choosing names by their texts is choosing queries. -/
theorem filter_valid (queries : Queries) (p : Text → Bool) :
    (classify queries).valid.filter (fun id => p (queries.textOf id))
      = ((accepted queries).filter fun q => p q.2).map Prod.fst := by
  rw [valid_eq, List.filter_map]
  congr 1
  refine List.filter_congr fun q hq => ?_
  exact congrArg p (textOf_of_mem (mem_of_mem_accepted hq))

theorem reactive_eq (queries : Queries) :
    (classify queries).reactive = (debounced (accepted queries)).map Prod.fst := by
  refine (filter_valid queries Dependency.isReactive).trans ?_
  unfold debounced
  congr 1
  refine List.filter_congr fun q _ => ?_
  cases h : Dependency.isReactive q.2 <;> simp [Dependency.ofText_eq_static_iff, h]

theorem contains_reactive {id : Text} (h : id ∈ (classify queries).valid) :
    (classify queries).reactive.contains id = Dependency.isReactive (queries.textOf id) := by
  rw [Bool.eq_iff_iff, List.contains_iff_mem]
  exact mem_reactive.trans (and_iff_right h)

theorem static_eq (queries : Queries) :
    (classify queries).static = (fixed (accepted queries)).map Prod.fst := by
  have hstatic : (classify queries).static
      = (classify queries).valid.filter fun id => !Dependency.isReactive (queries.textOf id) :=
    List.filter_congr fun id hid => congrArg not (contains_reactive hid)
  rw [hstatic, filter_valid queries fun t => !Dependency.isReactive t]
  unfold fixed
  congr 1
  refine List.filter_congr fun q _ => ?_
  cases h : Dependency.isReactive q.2 <;> simp [Dependency.ofText_eq_static_iff, h]

theorem input_eq (queries : Queries) :
    (classify queries).input = (subscribed (accepted queries)).map Prod.fst := by
  have hinput : (classify queries).input
      = (classify queries).valid.filter fun id => Dependency.readsInputs (queries.textOf id) := by
    refine (List.filter_filter).trans (List.filter_congr fun id _ => ?_)
    rw [Bool.eq_iff_iff, Bool.and_eq_true]
    exact and_iff_left_of_imp Dependency.isReactive_of_readsInputs
  rw [hinput, filter_valid]
  unfold subscribed
  congr 1
  refine List.filter_congr fun q _ => ?_
  rw [Bool.eq_iff_iff, decide_eq_true_eq]
  exact Dependency.ofText_eq_inputReactive_iff.symm

end Classification

end PageQueries
