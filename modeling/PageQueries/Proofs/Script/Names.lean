import Mathlib.Data.List.Nodup
import PageQueries.Proofs.Script.Code

/-!
# The names that a script binds

A script binds names of four families: those of the scaffold and its imports,
the accepted query names, and two names made from each, `_query_string_<id>` for
the text and `_query_<id>` for the executor of a reactive query. The gate
`Identifier.isAccepted` looks at each query name on its own. It keeps the first
two families apart from each other and from the made names, but not the two
made families: the executor of `string_a` has the name of the text of `a`.

Results:
* `bound_whole_perm`: what a script binds is `boundNames`, up to order.
* `script_names_distinct_iff`: the names are distinct exactly if no accepted
  name has a reactive companion, which is the same name behind `string_`.
-/
namespace PageQueries.Script

open Classification (classify)

/-- The names that the script of some queries binds, family by family. -/
def boundNames (queries : Queries) : List Text :=
  Identifier.scaffoldNames ++ (classify queries).valid
    ++ (classify queries).valid.map queryStringName
    ++ (classify queries).reactive.map executorName

/-- The name whose executor is called like the text of the given query. -/
def companion (id : Text) : Text := "string_".toList ++ id

/-- A query and its reactive companion are both bound. -/
def HasCompanions (queries : Queries) : Prop :=
  ∃ id ∈ (classify queries).valid, companion id ∈ (classify queries).reactive

instance (queries : Queries) : Decidable (HasCompanions queries) :=
  inferInstanceAs (Decidable (∃ id ∈ (classify queries).valid, _))

/-! ## What the blocks bind -/

theorem bound_scaffold (routeKey package : Text) :
    (scaffold routeKey package).bound
      = ["page", "pageHasQueries", "routeHash", "setContext", "getContext", "beforeUpdate",
          "onDestroy", "writable", "fmt", "CUSTOM_FORMATTING_SETTINGS_CONTEXT_KEY",
          "INPUTS_CONTEXT_KEY", "props", "data", "customFormattingSettings", "__db",
          "inputs_store", "inputs"].map String.toList := rfl

theorem bound_imports (package : Text) :
    (Block.imports package).code.bound
      = ["debounce", "browser", "dev", "profile"].map String.toList := rfl

theorem bound_refresh (ids : List Text) :
    (Block.refresh ids).code.bound = ["data_update".toList] := by
  have hbody : (Code.concat (ids.map fun id =>
      .lit "\t" ++ .assign id (storedResult id) ++ .lit ";\n")).bound = [] :=
    Code.bound_concat_eq_nil (fun _ => rfl) ids
  show ["data_update".toList] ++ (Code.bound (.concat _) ++ []) ++ [] = _
  rw [hbody]
  rfl

theorem bound_queryString (id text : Text) :
    (Block.queryString id text).code.bound = [queryStringName id, id] := rfl

theorem bound_static (id : Text) : (Block.static id).code.bound = [] := rfl

theorem bound_debounce : Block.debounce.code.bound = ["debounce_on_browser".toList] := rfl

theorem bound_reactive (id : Text) (pause : Int) :
    (Block.reactive id pause).code.bound = [executorName id] := rfl

theorem bound_inputSubscription (queries : List (Text × Text)) :
    (Block.inputSubscription queries).code.bound = [] := by
  have hbody : (Code.concat (queries.map fun q =>
      .lit "\t\t"
        ++ .assign q.1 (executorName q.1 ++ '(' :: templateLiteral q.2 ++ [')'])
        ++ .lit ";\n")).bound = [] :=
    Code.bound_concat_eq_nil (fun _ => rfl) queries
  show [] ++ ([] ++ Code.bound (.concat _) ++ []) ++ [] = _
  rw [hbody]
  rfl

/-! ## What the script binds -/

theorem flatMap_pair_perm {α β : Type} (f g : α → β) (as : List α) :
    (as.flatMap fun a => [f a, g a]).Perm (as.map g ++ as.map f) := by
  induction as with
  | nil => exact .nil
  | cons a as ih =>
    refine ((ih.cons (g a)).cons (f a)).trans ?_
    refine (List.Perm.swap _ _ _).trans ?_
    exact List.perm_middle.symm.cons _

/-- The names that the blocks of a classification bind. -/
theorem flatMap_bound_bindings {queries : Queries} (hne : (classify queries).isEmpty = false)
    (options : Options) :
    ((bindings queries options).flatMap fun b => b.code.bound)
      = ["debounce", "browser", "dev", "profile", "data_update"].map String.toList
        ++ (classify queries).valid.flatMap (fun id => [queryStringName id, id])
        ++ ["debounce_on_browser".toList]
        ++ (classify queries).reactive.map executorName := by
  rw [bindings, hne]
  simp only [Bool.false_eq_true, if_false, List.flatMap_append, List.flatMap_cons,
    List.flatMap_nil, List.flatMap_map, bound_imports, bound_refresh, bound_queryString,
    bound_static, bound_debounce, bound_reactive, bound_inputSubscription, List.append_nil]
  rw [List.flatMap_eq_nil_iff.mpr fun _ _ => rfl, ← List.map_eq_flatMap, List.append_nil]
  rfl

/-- What the script of some queries binds. -/
theorem bound_whole_perm {queries : Queries} (hne : (classify queries).isEmpty = false)
    (routeKey : Text) (options : Options) :
    (whole routeKey queries options).bound.Perm (boundNames queries) := by
  have hfixed : ((scaffold routeKey options.package).bound
      ++ ["debounce", "browser", "dev", "profile", "data_update"].map String.toList
      ++ ["debounce_on_browser".toList]).Perm Identifier.scaffoldNames := by
    rw [bound_scaffold]
    decide +kernel
  have hpairs := flatMap_pair_perm queryStringName (fun id => id) (classify queries).valid
  rw [bound_whole, flatMap_bound_bindings hne, boundNames, List.perm_iff_count]
  intro name
  have h1 := hfixed.count_eq name
  have h2 := hpairs.count_eq name
  rw [List.map_id'] at h2
  simp only [List.count_append] at h1 h2 ⊢
  omega

/-- A script without queries binds names of the scaffold only, each once. -/
theorem bound_whole_of_isEmpty {queries : Queries} (he : (classify queries).isEmpty = true)
    (routeKey : Text) (options : Options) :
    (whole routeKey queries options).bound.Nodup := by
  rw [bound_whole, bindings, he, bound_scaffold, if_pos rfl, List.flatMap_nil, List.append_nil]
  decide +kernel

/-! ## Which names can be equal -/

theorem queryStringName_injective : Function.Injective queryStringName :=
  fun _ _ h => List.append_cancel_left h

theorem executorName_injective : Function.Injective executorName :=
  fun _ _ h => List.append_cancel_left h

/-- The one pair of made names that can be equal. -/
theorem queryStringName_eq_executorName {a b : Text} :
    queryStringName a = executorName b ↔ b = companion a := by
  have hsplit : queryStringName a = executorName (companion a) := rfl
  rw [hsplit, executorName_injective.eq_iff, eq_comm]

theorem isPrefixOf_queryStringName (id : Text) :
    Identifier.generatedStart.isPrefixOf (queryStringName id) = true := rfl

theorem isPrefixOf_executorName (id : Text) :
    Identifier.generatedStart.isPrefixOf (executorName id) = true := rfl

/-- An accepted name is none of the scaffold and does not look made. -/
theorem not_reserved_of_mem_valid {queries : Queries} {id : Text}
    (h : id ∈ (classify queries).valid) :
    id ∉ Identifier.scaffoldNames ∧ Identifier.generatedStart.isPrefixOf id = false := by
  have hacc := (Classification.mem_valid.mp h).2
  simp only [Identifier.isAccepted, Identifier.isReserved, Bool.and_eq_true, Bool.not_eq_true',
    Bool.or_eq_false_iff] at hacc
  exact ⟨fun hm => by simpa [hm] using hacc.2.1.1, hacc.2.2⟩

theorem scaffoldNames_not_generated :
    ∀ name ∈ Identifier.scaffoldNames, Identifier.generatedStart.isPrefixOf name = false := by
  decide +kernel

/-- The families that the gate keeps apart. -/
theorem nodup_gated (queries : Queries) :
    (Identifier.scaffoldNames ++ (classify queries).valid).Nodup := by
  refine List.nodup_append.mpr ⟨by decide +kernel, Classification.nodup_valid queries, ?_⟩
  rintro name hs id hv rfl
  exact (not_reserved_of_mem_valid hv).1 hs

theorem not_generated_of_mem_gated {queries : Queries} {name : Text}
    (h : name ∈ Identifier.scaffoldNames ++ (classify queries).valid) :
    Identifier.generatedStart.isPrefixOf name = false := by
  rcases List.mem_append.mp h with hs | hv
  · exact scaffoldNames_not_generated name hs
  · exact (not_reserved_of_mem_valid hv).2

/-- The two families of made names are apart exactly if there are no companions. -/
theorem nodup_made_iff (queries : Queries) :
    ((classify queries).valid.map queryStringName
      ++ (classify queries).reactive.map executorName).Nodup ↔ ¬ HasCompanions queries := by
  have hq := (Classification.nodup_valid queries).map queryStringName_injective
  have he := (Classification.nodup_reactive queries).map executorName_injective
  rw [List.nodup_append]
  constructor
  · rintro ⟨-, -, hne⟩ ⟨id, hv, hr⟩
    exact hne _ (List.mem_map_of_mem hv) _ (List.mem_map_of_mem hr)
      (queryStringName_eq_executorName.mpr rfl)
  · intro hno
    refine ⟨hq, he, fun x hx y hy hxy => hno ?_⟩
    obtain ⟨a, ha, rfl⟩ := List.mem_map.mp hx
    obtain ⟨b, hb, rfl⟩ := List.mem_map.mp hy
    obtain rfl := queryStringName_eq_executorName.mp hxy
    exact ⟨a, ha, hb⟩

/-- The four families are apart exactly if no accepted name has a reactive companion. -/
theorem nodup_boundNames_iff (queries : Queries) :
    (boundNames queries).Nodup ↔ ¬ HasCompanions queries := by
  rw [← nodup_made_iff, boundNames, List.append_assoc, List.nodup_append]
  constructor
  · exact fun h => h.2.1
  · refine fun h => ⟨nodup_gated queries, h, ?_⟩
    intro name hg made hm heq
    subst heq
    have hno := not_generated_of_mem_gated hg
    rcases List.mem_append.mp hm with hq | he
    · obtain ⟨id, -, rfl⟩ := List.mem_map.mp hq
      rw [isPrefixOf_queryStringName] at hno
      cases hno
    · obtain ⟨id, -, rfl⟩ := List.mem_map.mp he
      rw [isPrefixOf_executorName] at hno
      cases hno

theorem nodup_bound_whole_iff (routeKey : Text) (queries : Queries) (options : Options) :
    (whole routeKey queries options).bound.Nodup ↔ ¬ HasCompanions queries := by
  cases he : (classify queries).isEmpty with
  | false => rw [(bound_whole_perm he routeKey options).nodup_iff, nodup_boundNames_iff]
  | true =>
    refine iff_of_true (bound_whole_of_isEmpty he routeKey options) ?_
    rintro ⟨id, hv, -⟩
    rw [Classification.isEmpty, List.isEmpty_iff] at he
    rw [he] at hv
    exact List.not_mem_nil hv

/-- **When names clash.** The names bound in a page's script are distinct exactly if no accepted
name has a reactive companion; so are the names of the four families. -/
theorem script_names_distinct_iff (routeKey : Text) (queries : Queries) (options : Options) :
    build routeKey queries options = .ok (whole routeKey queries options).render ∧
    ((whole routeKey queries options).bound.Nodup ↔ ¬ HasCompanions queries) ∧
    ((boundNames queries).Nodup ↔ ¬ HasCompanions queries) :=
  ⟨build_eq_render_whole routeKey queries options, nodup_bound_whole_iff routeKey queries options,
    nodup_boundNames_iff queries⟩

/-- A query and a reactive one that is its companion. -/
def companions : Queries :=
  .ofList [("a".toList, "select 1".toList), ("string_a".toList, "select $\x7bx\x7d".toList)]

theorem not_nodup_boundNames_companions : ¬ (boundNames companions).Nodup := by
  decide +kernel

end PageQueries.Script
