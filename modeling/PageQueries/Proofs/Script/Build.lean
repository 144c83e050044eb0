import PageQueries.Proofs.OrderedMap
import PageQueries.Script.Scaffold

/-!
# Every page has a script

`Script.build` can fail, since `declarations` looks queries up by name and the
lists of a classification may hold any names. The lists that `classify` makes
hold names of queries only, so a page's own script is always generated.

Results:
* `Classification.mem_valid`, `mem_reactive`, `mem_static`, `mem_input`: which
  names `classify` puts where.
* `Script.build_eq`: the script of a page, block by block. `Script.bindings`
  are its blocks.
-/
namespace PageQueries

/-- The text of a query; empty if there is none of the name. -/
def Queries.textOf (queries : Queries) (id : Text) : Text := (queries.get? id).getD []

namespace Classification

variable {queries : Queries} {id : Text}

theorem mem_valid :
    id ∈ (classify queries).valid ↔ id ∈ queries.keys ∧ Identifier.isAccepted id = true :=
  List.mem_filter

theorem mem_reactive :
    id ∈ (classify queries).reactive ↔
      id ∈ (classify queries).valid ∧ Dependency.isReactive (queries.textOf id) = true :=
  List.mem_filter

theorem mem_static :
    id ∈ (classify queries).static ↔
      id ∈ (classify queries).valid ∧ id ∉ (classify queries).reactive := by
  refine List.mem_filter.trans (and_congr_right fun _ => ?_)
  simp only [Bool.not_eq_true', ← Bool.not_eq_true, List.contains_iff_mem]
  rfl

theorem mem_input :
    id ∈ (classify queries).input ↔
      id ∈ (classify queries).reactive ∧ Dependency.readsInputs (queries.textOf id) = true :=
  List.mem_filter

theorem nodup_valid (queries : Queries) : (classify queries).valid.Nodup :=
  queries.nodup.filter _

theorem nodup_reactive (queries : Queries) : (classify queries).reactive.Nodup :=
  (nodup_valid queries).filter _

theorem mem_keys_of_mem_valid (h : id ∈ (classify queries).valid) : id ∈ queries.keys :=
  (mem_valid.mp h).1

theorem mem_keys_of_mem_input (h : id ∈ (classify queries).input) : id ∈ queries.keys :=
  mem_keys_of_mem_valid (mem_reactive.mp (mem_input.mp h).1).1

end Classification

namespace Script

open Classification (classify)

/-- Looking up names of queries finds them all. -/
theorem lookUp_eq {queries : Queries} {ids : List Text} (h : ∀ id ∈ ids, id ∈ queries.keys) :
    lookUp queries ids = .ok (ids.map fun id => (id, queries.textOf id)) := by
  induction ids with
  | nil => rfl
  | cons id ids ih =>
    have hid := (OrderedMap.isSome_get?_iff queries id).mpr (h id List.mem_cons_self)
    obtain ⟨text, htext⟩ := Option.isSome_iff_exists.mp hid
    rw [lookUp, htext, ih fun id' hid' => h id' (List.mem_cons_of_mem _ hid')]
    simp only [List.map_cons, Queries.textOf, htext, Option.getD_some, Except.map]

/-- The blocks that bind a page's queries; none if no query is bound. -/
def bindings (queries : Queries) (options : Options) : List Block :=
  let c := classify queries
  if c.isEmpty then []
  else
    [.imports options.package, .refresh c.valid]
      ++ c.valid.map (fun id => .queryString id (queries.textOf id))
      ++ c.static.map .static
      ++ [.debounce]
      ++ c.reactive.map (.reactive · options.pause)
      ++ [.inputSubscription (c.input.map fun id => (id, queries.textOf id))]

theorem declarations_classify (queries : Queries) (options : Options) :
    declarations (classify queries) options
      = .ok (joinBlocks ((bindings queries options).map Block.text)) := by
  have hvalid : lookUp (classify queries).queries (classify queries).valid = .ok _ :=
    lookUp_eq fun _ => Classification.mem_keys_of_mem_valid
  have hinput : lookUp (classify queries).queries (classify queries).input = .ok _ :=
    lookUp_eq fun _ => Classification.mem_keys_of_mem_input
  rw [declarations, bindings]
  split
  · rfl
  · simp only [blocks, hvalid, hinput, bind, Except.bind, pure, Except.pure, Except.map,
      List.map_map]
    rfl

/-- A page's script is the scaffold and the blocks of its queries. -/
theorem build_eq (routeKey : Text) (queries : Queries) (options : Options) :
    build routeKey queries options
      = .ok (preamble routeKey (joinBlocks ((bindings queries options).map Block.text))
          options.package) := by
  rw [build, declarations_classify]
  rfl

end Script

end PageQueries
