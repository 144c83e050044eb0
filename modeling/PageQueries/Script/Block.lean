import PageQueries.Classification
import PageQueries.Script.Code

/-!
# Blocks of bindings

The bindings of a page's queries are a sequence of blocks.  For each query that the script binds
there is a block with its text and its variable, and one that runs it: once if it is static, after
a pause whenever its text changes if it is not.
-/
namespace PageQueries.Script

/-- The name of the variable that holds a query's text (`query_string_name`). -/
def queryStringName (id : Text) : Text := "_query_string_".toList ++ id

/-- The name of the function that runs a query (`executor_name`). -/
def executorName (id : Text) : Text := "_query_".toList ++ id

/-- A query's text within a literal: backticks are escaped (`escape_template_literal`). -/
def escapeLiteral (t : Text) : Text := t.flatMap fun c => if c = '\x60' then ['\\', c] else [c]

/-- A query's text as a literal between backticks, whose markers the page evaluates
(`template_literal`). -/
def templateLiteral (t : Text) : Text := '\x60' :: escapeLiteral t ++ ['\x60']

/-- What a query's variable holds until the query has run: the result among the page's data. -/
def storedResult (id : Text) : Text := "data.".toList ++ id ++ " ?? []".toList

/-- A block of the generated bindings. -/
inductive Block where
  /-- The imports that the other blocks use, the helpers from a package (`import_fragment`). -/
  | imports (package : Text)
  /-- Takes new results for all queries whenever the page's data change
  (`data_update_fragment`). -/
  | refresh (ids : List Text)
  /-- The text and the variable of a query (`query_string_fragment`). -/
  | queryString (id text : Text)
  /-- Runs a static query (`static_query_fragment`). -/
  | static (id : Text)
  /-- Chooses how queries are debounced (`debounce_fragment`). -/
  | debounce
  /-- Runs a query after a pause of so many milliseconds whenever its text has changed
  (`reactive_query_fragment`). -/
  | reactive (id : Text) (pause : Int)
  /-- Runs queries that read inputs, given with their texts, whenever the inputs change on the
  server (`input_subscription_fragment`). -/
  | inputSubscription (queries : List (Text × Text))
  deriving DecidableEq, Repr

namespace Block

def code : Block → Code
  | imports package =>
    .lines
      [.lit "import " ++ .bind "debounce".toList ++ .lit " from 'debounce';",
        .importNames ["browser", "dev"] "$app/environment".toList,
        .importNames ["profile"] (package ++ "/profile".toList)]
  | refresh ids =>
    .lit "function " ++ .bind "data_update".toList
      ++ .function "data".toList " \x7b\n".toList
        (.concat (ids.map fun id =>
            .lit "\t" ++ .assign id (storedResult id) ++ .lit ";\n")
          ++ .lit "\x7d")
      ++ .lit "\n\n$: data_update(data);"
  | queryString id text =>
    .lit "$: " ++ .bind (queryStringName id) ++ .lit " = " ++ .text (templateLiteral text)
      ++ .lit ";\nlet " ++ .bind id ++ .lit " = " ++ .text (storedResult id) ++ .lit ";"
  | static id =>
    .lit "$: if (!browser || dev) \x7b\n\tprofile(__db.query, " ++ .text (queryStringName id)
      ++ .lit ", \"" ++ .text id ++ .lit "\", " ++ .arrow "value" (.assign id "value".toList)
      ++ .lit ");\n\x7d"
  | debounce =>
    .lit "const " ++ .bind "debounce_on_browser".toList ++ .lit " = browser ? debounce : "
      ++ .arrow "fn" (.lit "fn") ++ .lit ";"
  | reactive id pause =>
    .lit "const " ++ .bind (executorName id) ++ .lit " = debounce_on_browser(\n\t"
      ++ .arrow "query"
        (.lit "profile(\n\t\t__db.query,\n\t\tquery, \"" ++ .text id ++ .lit "\", "
          ++ .arrow "value" (.lit "(" ++ .assign id "value".toList ++ .lit ")") ++ .lit "\n\t)")
      ++ .lit ",\n\t" ++ .text (Text.ofInt pause) ++ .lit "\n);\n\n$: "
      ++ .text (executorName id) ++ .lit "(" ++ .text (queryStringName id) ++ .lit ");"
  | inputSubscription queries =>
    .lit "if (!browser) \x7b\n\tonDestroy(inputs_store.subscribe("
      ++ .arrow "inputs"
        (.lit "\x7b\n"
          ++ .concat (queries.map fun q =>
            .lit "\t\t"
              ++ .assign q.1
                (executorName q.1 ++ '(' :: templateLiteral q.2 ++ [')'])
              ++ .lit ";\n")
          ++ .lit "\t\x7d")
      ++ .lit "));\n\x7d"

def text (b : Block) : Text := b.code.render

end Block

/-- Blocks of text with an empty line between neighbours (`_join_blocks`); empty ones are left
out. -/
def joinBlocks (blocks : List Text) : Text :=
  Text.join "\n\n".toList (blocks.filter (!·.isEmpty))

/-- The queries of the given names, or the first name that has none. -/
def lookUp (queries : Queries) : List Text → Except Text (List (Text × Text))
  | [] => .ok []
  | id :: ids =>
    match queries.get? id with
    | none => .error id
    | some text => (lookUp queries ids).map ((id, text) :: ·)

/-- What the generated code depends on beside the queries. -/
structure Options where
  /-- The pause of debounced queries in milliseconds. -/
  pause : Int
  /-- The package that helpers are imported from. -/
  package : Text
  deriving DecidableEq, Repr

/-- The blocks that bind the queries of a classification, or the first name without a query. -/
def blocks (c : Classification) (options : Options) : Except Text (List Block) := do
  let texts ← lookUp c.queries c.valid
  let inputs ← lookUp c.queries c.input
  return [.imports options.package, .refresh c.valid]
    ++ texts.map (fun q => .queryString q.1 q.2)
    ++ c.static.map .static
    ++ [.debounce]
    ++ c.reactive.map (.reactive · options.pause)
    ++ [.inputSubscription inputs]

/-- The bindings of a classification; none at all if it binds no query (`query_declarations`). -/
def declarations (c : Classification) (options : Options) : Except Text Text :=
  if c.isEmpty then .ok []
  else (blocks c options).map fun bs => joinBlocks (bs.map Block.text)

end PageQueries.Script
