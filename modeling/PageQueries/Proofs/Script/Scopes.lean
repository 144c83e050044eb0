import PageQueries.Proofs.Script.Names

/-!
# Where results are assigned

A query has a variable of its name, and what the query finds is assigned to it
in several places: when the page's data change, when the query has run, and on
the server when the inputs change. Each of these places is inside a function,
and the function has a parameter. If the parameter has the query's name, the
assignment changes the parameter, and the variable never sees the result.

`Code.assignments` lists the assignments of a piece of code, each with the
parameters around it. Four parameters occur: `data`, `inputs`, `value` and
`query`. The gate `Identifier.isAccepted` refuses the first two as names of the
scaffold, and lets the other two pass.

Results:
* `mem_assignments_whole`: where a script assigns the variable of a query.
* `results_captured_iff`: the result of an accepted query is lost somewhere
  exactly if its name is `value`, or `query` and it is reactive.
-/
namespace PageQueries.Script

open Classification (classify)

namespace Code

variable {scope : List Text}

theorem assignments_append (c d : Code) :
    (c ++ d).assignments scope = c.assignments scope ++ d.assignments scope := rfl

theorem assignments_concat (cs : List Code) :
    (concat cs).assignments scope = cs.flatMap (assignments scope) := by
  induction cs with
  | nil => rfl
  | cons c cs ih =>
    rw [List.flatMap_cons, ← ih]
    rfl

theorem assignments_paragraphs (cs : List Code) :
    (paragraphs cs).assignments scope = cs.flatMap (assignments scope) := by
  induction cs with
  | nil => rfl
  | cons c cs ih =>
    cases cs with
    | nil => simp [paragraphs]
    | cons d cs =>
      have hsplit : (paragraphs (c :: d :: cs)).assignments scope
          = c.assignments scope ++ [] ++ (paragraphs (d :: cs)).assignments scope := rfl
      rw [hsplit, ih, List.append_nil]
      exact List.flatMap_cons.symm

/-- Pieces that each make one assignment. -/
theorem assignments_concat_map {α : Type} {f : α → Code} {g : α → Text × List Text}
    (h : ∀ a, (f a).assignments scope = [g a]) (as : List α) :
    (concat (as.map f)).assignments scope = as.map g := by
  rw [assignments_concat, List.flatMap_map, ← List.flatMap_singleton' (as.map g), List.flatMap_map]
  simp only [h]

end Code

/-! ## What the blocks assign -/

theorem assignments_scaffold (routeKey package : Text) :
    (scaffold routeKey package).assignments [] = [("inputs".toList, ["value".toList])] := rfl

theorem assignments_imports (package : Text) : (Block.imports package).code.assignments [] = [] :=
  rfl

theorem assignments_refresh (ids : List Text) :
    (Block.refresh ids).code.assignments [] = ids.map fun id => (id, ["data".toList]) := by
  have hbody : (Code.concat (ids.map fun id =>
      .lit "\t" ++ .assign id (storedResult id) ++ .lit ";\n")).assignments ["data".toList]
        = ids.map fun id => (id, ["data".toList]) :=
    Code.assignments_concat_map (fun _ => rfl) ids
  show [] ++ (Code.assignments _ (.concat _) ++ []) ++ [] = _
  rw [hbody]
  simp

theorem assignments_queryString (id text : Text) :
    (Block.queryString id text).code.assignments [] = [] := rfl

theorem assignments_static (id : Text) :
    (Block.static id).code.assignments [] = [(id, ["value".toList])] := rfl

theorem assignments_debounce : Block.debounce.code.assignments [] = [] := rfl

theorem assignments_reactive (id : Text) (pause : Int) :
    (Block.reactive id pause).code.assignments [] = [(id, ["value".toList, "query".toList])] := rfl

theorem assignments_inputSubscription (queries : List (Text × Text)) :
    (Block.inputSubscription queries).code.assignments []
      = queries.map fun q => (q.1, ["inputs".toList]) := by
  have hbody : (Code.concat (queries.map fun q =>
      .lit "\t\t"
        ++ .assign q.1 (executorName q.1 ++ '(' :: templateLiteral q.2 ++ [')'])
        ++ .lit ";\n")).assignments ["inputs".toList]
        = queries.map fun q => (q.1, ["inputs".toList]) :=
    Code.assignments_concat_map (fun _ => rfl) queries
  show [] ++ ([] ++ Code.assignments _ (.concat _) ++ []) ++ [] = _
  rw [hbody]
  simp

/-! ## What the script assigns -/

/-- The assignments of a script: that of the scaffold, then those of each block. -/
theorem assignments_whole (routeKey : Text) (queries : Queries) (options : Options) :
    (whole routeKey queries options).assignments []
      = ("inputs".toList, ["value".toList])
        :: (bindings queries options).flatMap fun b => b.code.assignments [] := by
  rw [whole, Code.assignments_append, assignments_scaffold, bindingsCode, List.singleton_append]
  congr 1
  split
  · rename_i hb
    rw [hb]
    rfl
  · rw [Code.assignments_append, Code.assignments_paragraphs, List.flatMap_map]
    exact List.append_nil _

/-- An accepted name is none of the parameters that are names of the scaffold. -/
theorem ne_data_inputs {queries : Queries} {id : Text} (hid : id ∈ (classify queries).valid) :
    id ≠ "data".toList ∧ id ≠ "inputs".toList := by
  have hgate := (not_reserved_of_mem_valid hid).1
  have hdata : "data".toList ∈ Identifier.scaffoldNames := by decide +kernel
  have hinputs : "inputs".toList ∈ Identifier.scaffoldNames := by decide +kernel
  exact ⟨fun he => hgate (he ▸ hdata), fun he => hgate (he ▸ hinputs)⟩

/-- Where a script assigns the variable of an accepted query. -/
theorem mem_assignments_whole {queries : Queries} {id : Text} (hid : id ∈ (classify queries).valid)
    (routeKey : Text) (options : Options) (scope : List Text) :
    (id, scope) ∈ (whole routeKey queries options).assignments [] ↔
      scope = ["data".toList] ∨
      id ∈ (classify queries).static ∧ scope = ["value".toList] ∨
      id ∈ (classify queries).reactive ∧ scope = ["value".toList, "query".toList] ∨
      id ∈ (classify queries).input ∧ scope = ["inputs".toList] := by
  have hne : (classify queries).isEmpty = false := by
    rw [Classification.isEmpty, List.isEmpty_eq_false_iff]
    exact List.ne_nil_of_mem hid
  have hinputs := (ne_data_inputs hid).2
  rw [assignments_whole, bindings, hne]
  simp only [Bool.false_eq_true, if_false, List.flatMap_append, List.flatMap_cons,
    List.flatMap_nil, List.flatMap_map, assignments_imports, assignments_refresh,
    assignments_queryString, assignments_static, assignments_debounce, assignments_reactive,
    assignments_inputSubscription, List.mem_cons, List.mem_append, List.mem_map, List.mem_flatMap,
    List.map_map, Function.comp_def, Prod.mk.injEq, List.append_nil, List.nil_append,
    List.not_mem_nil, hinputs, false_and, false_or, and_false, exists_false, or_false]
  grind

theorem mem_bound_whole {queries : Queries} {id : Text} (hid : id ∈ (classify queries).valid)
    (routeKey : Text) (options : Options) : id ∈ (whole routeKey queries options).bound := by
  have hne : ¬ (classify queries).isEmpty = true := by
    rw [Classification.isEmpty, List.isEmpty_iff]
    exact List.ne_nil_of_mem hid
  have hblock : Block.queryString id (queries.textOf id) ∈ bindings queries options := by
    rw [bindings, if_neg hne]
    simp only [List.mem_append, List.mem_map]
    exact Or.inl (Or.inl (Or.inl (Or.inl (Or.inr ⟨id, hid, rfl⟩))))
  rw [bound_whole]
  refine List.mem_append_right _ (List.mem_flatMap.mpr ⟨_, hblock, ?_⟩)
  exact List.mem_cons_of_mem _ List.mem_cons_self

/-! ## Which results are lost -/

/-- Somewhere in the code the name is assigned where it is a parameter. -/
def Captures (code : Code) (id : Text) : Prop :=
  ∃ scope, (id, scope) ∈ code.assignments [] ∧ id ∈ scope

theorem captures_whole_iff {queries : Queries} {id : Text} (hid : id ∈ (classify queries).valid)
    (routeKey : Text) (options : Options) :
    Captures (whole routeKey queries options) id ↔
      id = "value".toList ∨ id = "query".toList ∧ id ∈ (classify queries).reactive := by
  obtain ⟨hdata, hinputs⟩ := ne_data_inputs hid
  simp only [Captures, mem_assignments_whole hid]
  constructor
  · rintro ⟨scope, rfl | ⟨-, rfl⟩ | ⟨hr, rfl⟩ | ⟨-, rfl⟩, hm⟩
    · exact absurd (List.mem_singleton.mp hm) hdata
    · exact Or.inl (List.mem_singleton.mp hm)
    · rcases List.mem_cons.mp hm with hv | hq
      · exact Or.inl hv
      · exact Or.inr ⟨List.mem_singleton.mp hq, hr⟩
    · exact absurd (List.mem_singleton.mp hm) hinputs
  · rintro (hv | ⟨hq, hr⟩)
    · -- A query runs in a static or in a reactive block, and both have the parameter.
      by_cases hr : id ∈ (classify queries).reactive
      · exact ⟨_, Or.inr (Or.inr (Or.inl ⟨hr, rfl⟩)), List.mem_cons.mpr (Or.inl hv)⟩
      · have hs := Classification.mem_static.mpr ⟨hid, hr⟩
        exact ⟨_, Or.inr (Or.inl ⟨hs, rfl⟩), List.mem_singleton.mpr hv⟩
    · exact ⟨_, Or.inr (Or.inr (Or.inl ⟨hr, rfl⟩)), by simp [hq]⟩

/-- **When results reach their variables.** The variable of each accepted query is bound in the
page's script and assigned there. An assignment to it stands inside a function that has a parameter
of the same name exactly if the name is `value`, or `query` and the query is reactive. -/
theorem results_captured_iff (routeKey : Text) (queries : Queries) (options : Options) :
    build routeKey queries options = .ok (whole routeKey queries options).render ∧
    ∀ id ∈ (classify queries).valid,
      id ∈ (whole routeKey queries options).bound ∧
      (∃ scope, (id, scope) ∈ (whole routeKey queries options).assignments []) ∧
      (Captures (whole routeKey queries options) id ↔
        id = "value".toList ∨ id = "query".toList ∧ id ∈ (classify queries).reactive) := by
  refine ⟨build_eq_render_whole routeKey queries options, fun id hid => ⟨?_, ?_, ?_⟩⟩
  · exact mem_bound_whole hid routeKey options
  · exact ⟨_, (mem_assignments_whole hid routeKey options _).mpr (Or.inl rfl)⟩
  · exact captures_whole_iff hid routeKey options

/-- A static query and a query that reads inputs, with names that look alike. -/
def lookalikes : Queries :=
  .ofList [("query".toList, "select 1".toList),
    ("value_".toList, "select $\x7binputs.a\x7d".toList)]

theorem results_captured_iff_lookalikes :
    "query".toList ∈ (classify lookalikes).valid ∧ "value_".toList ∈ (classify lookalikes).valid ∧
      ¬ Captures (whole [] lookalikes ⟨200, []⟩) "query".toList ∧
      ¬ Captures (whole [] lookalikes ⟨200, []⟩) "value_".toList := by
  have hq : "query".toList ∈ (classify lookalikes).valid := by decide +kernel
  have hv : "value_".toList ∈ (classify lookalikes).valid := by decide +kernel
  have hresults := (results_captured_iff [] lookalikes ⟨200, []⟩).2
  refine ⟨hq, hv, ?_, ?_⟩
  · rw [(hresults _ hq).2.2]
    decide +kernel
  · rw [(hresults _ hv).2.2]
    decide +kernel

/-- A query called like the parameter that takes results. -/
def valueQuery : Queries := .ofList [("value".toList, "select 1".toList)]

theorem captures_valueQuery :
    "value".toList ∈ (classify valueQuery).valid ∧
      Captures (whole [] valueQuery ⟨200, []⟩) "value".toList := by
  have hv : "value".toList ∈ (classify valueQuery).valid := by decide +kernel
  refine ⟨hv, ["value".toList], ?_, List.mem_singleton_self _⟩
  decide +kernel

end PageQueries.Script
