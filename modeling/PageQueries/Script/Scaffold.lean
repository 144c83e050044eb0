import PageQueries.Script.Block

/-!
# The scaffold of a page's script

Every managed page's script begins with the same imports and context, in which the page's route key
is the only thing that differs.  The bindings of its queries follow.
-/
namespace PageQueries.Script

/-- The code that every script begins with. -/
def scaffold (routeKey package : Text) : Code :=
  .lines
    [.importNames ["page"] "$app/stores".toList,
      .importNames ["pageHasQueries", "routeHash"] (package ++ "/stores".toList),
      .importNames ["setContext", "getContext", "beforeUpdate", "onDestroy"] "svelte".toList,
      .importNames ["writable"] "svelte/store".toList,
      .lit "",
      .lit "// Functions",
      .importNames ["fmt"] (package ++ "/formatting".toList),
      .lit "",
      .importNames ["CUSTOM_FORMATTING_SETTINGS_CONTEXT_KEY", "INPUTS_CONTEXT_KEY"]
        (package ++ "/globalContexts".toList),
      .lit "",
      .lit "let " ++ .bind "props".toList ++ .lit ";",
      .lit "export \x7b props as data \x7d;",
      .lit "let \x7b " ++ .bind "data".toList ++ .lit " = \x7b\x7d, "
        ++ .bind "customFormattingSettings".toList ++ .lit ", " ++ .bind "__db".toList
        ++ .lit " \x7d = props;",
      .lit "$: (\x7b data = \x7b\x7d, customFormattingSettings, __db \x7d = props);",
      .lit "",
      .lit "$routeHash = '" ++ .text routeKey ++ .lit "';",
      .lit "",
      .lit "let " ++ .bind "inputs_store".toList ++ .lit " = writable(\x7b\x7d);",
      .lit "setContext(INPUTS_CONTEXT_KEY, inputs_store);",
      .lit "",
      .lit "let " ++ .bind "inputs".toList ++ .lit " = \x7b\x7d;",
      .lit "onDestroy(inputs_store.subscribe("
        ++ .arrow "value" (.assign "inputs".toList "value".toList) ++ .lit "));",
      .lit "",
      .lit "$: pageHasQueries.set(Object.keys(data).length > 0);",
      .lit "",
      .lit "setContext(CUSTOM_FORMATTING_SETTINGS_CONTEXT_KEY, \x7b",
      .lit "\tgetCustomFormats: () => \x7b",
      .lit "\t\treturn customFormattingSettings.customFormats || [];",
      .lit "\t\x7d",
      .lit "\x7d);",
      .lit "\n"]

/-- The scaffold followed by bindings, each part ended by an empty line (`script_preamble`). -/
def preamble (routeKey bindings package : Text) : Text :=
  (scaffold routeKey package).render
    ++ if bindings.isEmpty then [] else bindings ++ "\n\n".toList

/-- The generated part of a page's script (`build_script`).  It holds a binding for each accepted
query, so no name is without its query. -/
def build (routeKey : Text) (queries : Queries) (options : Options) : Except Text Text :=
  (declarations (Classification.classify queries) options).map fun bindings =>
    preamble routeKey bindings options.package

end PageQueries.Script
