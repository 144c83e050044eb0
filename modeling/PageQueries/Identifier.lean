import PageQueries.Text.Basic

/-!
# Identifiers

A query is bound in the page's script to a variable of its own name, so the name has to be an
identifier that neither the language nor the script around the queries uses.
-/
namespace PageQueries.Identifier

def isStart (c : Char) : Bool := c.isAlpha || c = '_' || c = '$'

def isPart (c : Char) : Bool := c.isAlphanum || c = '_' || c = '$'

/-- Whether a text is an identifier (`is_valid_identifier`). -/
def isIdentifier : Text → Bool
  | [] => false
  | c :: t => isStart c && t.all isPart

/-- The names that the script around the queries binds (`RESERVED_BINDING_NAMES`). -/
def scaffoldNames : List Text :=
  ["CUSTOM_FORMATTING_SETTINGS_CONTEXT_KEY", "INPUTS_CONTEXT_KEY", "__db", "beforeUpdate",
    "browser", "customFormattingSettings", "data", "data_update", "debounce",
    "debounce_on_browser", "dev", "fmt", "getContext", "inputs", "inputs_store", "onDestroy",
    "page", "pageHasQueries", "profile", "props", "routeHash", "setContext",
    "writable"].map String.toList

/-- The words that the script's language keeps for itself (`JS_RESERVED_WORDS`). -/
def languageWords : List Text :=
  ["arguments", "await", "break", "case", "catch", "class", "const", "continue", "debugger",
    "default", "delete", "do", "else", "enum", "eval", "export", "extends", "false", "finally",
    "for", "function", "if", "implements", "import", "in", "instanceof", "interface", "let", "new",
    "null", "package", "private", "protected", "public", "return", "static", "super", "switch",
    "this", "throw", "true", "try", "typeof", "var", "void", "while", "with",
    "yield"].map String.toList

/-- The beginning of the names that are made for each query (`GENERATED_NAME_PREFIX`). -/
def generatedStart : Text := "_query_".toList

/-- Whether a name is in use (`is_reserved_identifier`): by the script around the queries, by the
language, or for the names made for queries. -/
def isReserved (id : Text) : Bool :=
  scaffoldNames.contains id || languageWords.contains id || generatedStart.isPrefixOf id

/-- Whether a query of this name is bound in the script. -/
def isAccepted (id : Text) : Bool := isIdentifier id && !isReserved id

end PageQueries.Identifier
