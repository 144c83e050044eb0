import PageQueries.Fence
import PageQueries.Frontmatter
import PageQueries.Markup
import PageQueries.RouteKey
import PageQueries.Script.Scaffold
import PageQueries.Settings.Basic
import PageQueries.Store.Basic
import PageQueries.Text.LowerCase

/-!
# The two phases of a page

A build tool hands a page to the preprocessor twice.  The markup phase extracts the page's queries,
stores them under the page's route key and shows their texts on the page.  The script phase puts
the bindings of the stored queries in front of the page's script.  Pages whose names do not have
the managed extension are left alone.

A name in parentheses, such as `build_script`, is the one by which the preprocessor offers what a
definition says.
-/
namespace PageQueries

/-- What an extractor returns for a query: a record, or a value that is yet to be read as one. -/
inductive ExtractedItem where
  | record (r : Record)
  | value (v : Json)

/-- The parts of a preprocessor that can be exchanged. -/
structure Hooks where
  /-- Extracts the queries of a page, or tells why it cannot. -/
  extract : Text → Except Text (List ExtractedItem)
  /-- Shows a query's text under a label. -/
  highlight : (text label : Text) → Text
  /-- Detects the inner text of a page's frontmatter. -/
  frontmatter : Text → Option Text
  /-- The route key of a file. -/
  routeKey : Text → Text
  /-- Whether the script phase removes the entry that it has used. -/
  discardAfterScript : Bool

/-- Fenced queries, preformatted blocks, delimited frontmatter and digests of paths. -/
def Hooks.default : Hooks where
  extract content := .ok ((Fence.extract Fence.defaultLanguage content).map .record)
  highlight := Markup.highlight
  frontmatter := Frontmatter.inner?
  routeKey := RouteKey.generate none
  discardAfterScript := false

inductive PageError where
  /-- The extractor failed on the page. -/
  | extraction (filename cause : Text)
  /-- The extractor returned something that is no record. -/
  | invalidRecord (violations : List Violation)
  /-- In the stored entry of the page, what should be the text of a bound query is none. -/
  | notText (v : Json)
  /-- In the stored entry of the page, what should be the texts of rejected queries are none. -/
  | invalidQueries (violations : List Violation)
  /-- The stored entry of the page exceeds a limit. -/
  | limit (l : Json.Limit)
  /-- A name is to be bound that no query has. -/
  | queryMissing (id : Text)

def PageError.message : PageError → Text
  | extraction filename cause =>
    "Failed to extract queries from ".toList ++ filename ++ ": ".toList ++ cause
  | invalidRecord violations => Violation.summarize violations
  | notText v =>
    "expected string or bytes-like object, got '".toList ++ v.kind ++ ['\'']
  | invalidQueries violations => Violation.summarize violations
  | limit l => l.message
  | queryMissing id => Text.quoted id

/-- A preprocessor: its settings and its store (`QueryPreprocessor`). -/
structure Preprocessor where
  settings : Settings
  store : Store

/-- What a phase does: its answer, the preprocessor after it, and its warnings. -/
structure Outcome (α : Type) where
  answer : Except PageError α
  after : Preprocessor
  warnings : List Warning

namespace Preprocessor

/-- Whether a page is managed under the settings in force. -/
def handles (p : Preprocessor) (filename : Text) : Bool := p.settings.manages filename

/-- The record that an extracted item is. -/
def readItem : ExtractedItem → Except PageError Record
  | .record r => .ok r
  | .value v => (Record.ofJson v).mapError .invalidRecord

/-- Reads items in order, up to the first that is no record. -/
def readItems : List ExtractedItem → Except PageError (List Record)
  | [] => .ok []
  | item :: items => do
    let r ← readItem item
    let rs ← readItems items
    return r :: rs

/-- The records of a page (`_extract`). -/
def records (h : Hooks) (content filename : Text) : Except PageError (List Record) :=
  match h.extract content with
  | .error cause => .error (.extraction filename cause)
  | .ok items => readItems items

/-- The queries of records: a repeated name keeps its first position and takes its last text. -/
def queriesOf (records : List Record) : Queries := .ofList (records.map fun r => (r.id, r.text))

/-- The text that shows the queries which are not inline. -/
def views (h : Hooks) (records : List Record) : Text :=
  "\n\n\n".toList ++ Text.join ['\n']
    ((records.filter (!·.inline)).map fun r => h.highlight r.text (Text.lower r.id))

/-- Where the views are put into a page: behind its frontmatter, else at its start. -/
def insertionOffset (h : Hooks) (content : Text) : Nat :=
  ((h.frontmatter content).bind (Frontmatter.endOffset? · content)).getD 0

/-- A page with the views of its queries. -/
def withViews (h : Hooks) (content : Text) (records : List Record) : Text :=
  let offset := insertionOffset h content
  content.take offset ++ views h records ++ content.drop offset

/-- The markup phase: stores the page's queries and shows them on the page.  The answer is nothing
for a page that is not managed. -/
def markup (h : Hooks) (p : Preprocessor) (content filename : Text) : Outcome (Option Text) :=
  if p.handles filename then
    match records h content filename with
    | .error e => ⟨.error e, p, []⟩
    | .ok rs =>
      ⟨.ok (some (withViews h content rs)),
        { p with store := p.store.set (h.routeKey filename) (queriesOf rs) }, []⟩
  else ⟨.ok none, p, []⟩

/-- Stored queries as texts.  The queries that are to be bound are looked at first; of the others
all that are no texts are told. -/
def textsOf (stored : OrderedMap Text Json) : Except PageError Queries :=
  match stored.toList.find? fun q => Identifier.isAccepted q.1 && q.2.asText?.isNone with
  | some q => .error (.notText q.2)
  | none =>
    (checkTextMap [Classification.queriesName] (.object stored.toList)).mapError .invalidQueries

def scriptOptions (p : Preprocessor) : Script.Options := ⟨p.settings.pause, p.settings.package⟩

/-- Whether the attributes of a script block make it the module's script, which binds nothing. -/
def isModule (attributes : List (Text × Json)) : Bool :=
  match attributes.lookup "context".toList with
  | some (.text t) => t = "module".toList
  | _ => false

/-- The script of a page with the bindings of the given queries in front. -/
def withBindings (p : Preprocessor) (key : Text) (queries : Queries) (content : Text) :
    Except PageError Text :=
  ((Script.build key queries p.scriptOptions).map (· ++ content)).mapError .queryMissing

/-- The script phase: puts the bindings of the page's stored queries in front of its script.  The
answer is nothing for a page that is not managed and for a module's script. -/
def script (h : Hooks) (p : Preprocessor) (content filename : Text)
    (attributes : List (Text × Json)) : Outcome (Option Text) :=
  if p.handles filename && !isModule attributes then
    let key := h.routeKey filename
    let (stored, store, warnings) := p.store.get key
    let p := { p with store }
    match stored with
    | .error l => ⟨.error (.limit l), p, warnings⟩
    | .ok stored =>
      let missing := if stored.isNone then [Warning.nothingStored filename] else []
      let stored := stored.getD .empty
      let warnings := warnings ++ missing ++ Classification.reservedWarnings stored
      match textsOf stored with
      | .error e => ⟨.error e, p, warnings⟩
      | .ok queries =>
        let after := if h.discardAfterScript then { p with store := (p.store.discard key).2 } else p
        ⟨(p.withBindings key queries content).map some, after, warnings⟩
  else ⟨.ok none, p, []⟩

/-- Both phases, one after the other. -/
def process (h : Hooks) (p : Preprocessor) (content filename script : Text)
    (attributes : List (Text × Json)) : Outcome (Option Text × Option Text) :=
  let first := p.markup h content filename
  match first.answer with
  | .error e => ⟨.error e, first.after, first.warnings⟩
  | .ok markup =>
    let second := first.after.script h script filename attributes
    ⟨second.answer.map (markup, ·), second.after, first.warnings ++ second.warnings⟩

end Preprocessor

end PageQueries
