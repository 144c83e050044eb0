import PageQueries.Text.Blank

/-!
# Dependencies

A query's text may hold markers `${…}`, which the page evaluates.  A text without markers is
static; one with a marker that reads a member of `inputs` depends on the inputs; all others are
reactive.
-/
namespace PageQueries

/-- What the text of a query depends on (`DependencyClass`). -/
inductive Dependency where
  | static
  | reactive
  | inputReactive
  deriving DecidableEq, Repr

namespace Dependency

def name : Dependency → Text
  | static => "static".toList
  | reactive => "reactive".toList
  | inputReactive => "input_reactive".toList

/-- The two characters that open a marker. -/
def markerStart : Text := ['$', '\x7b']

/-- Whether a text begins with a marker (`REACTIVE_MARKER`). -/
def beginsMarker (t : Text) : Bool :=
  match Text.after? markerStart t with
  | some r => r.contains '\x7d'
  | none => false

/-- Whether a text begins with a marker that reads a member of `inputs` (`INPUT_MARKER`). -/
def beginsInputMarker (t : Text) : Bool :=
  match (Text.after? markerStart t).bind
      fun r => Text.after? "inputs".toList (r.dropWhile Text.isBlank) with
  | some r =>
    match r.dropWhile Text.isBlank with
    | '.' :: r => r.contains '\x7d'
    | _ => false
  | none => false

/-- Whether a text holds a marker (`is_reactive_query`). -/
def isReactive : Text → Bool
  | [] => false
  | c :: t => beginsMarker (c :: t) || isReactive t

/-- Whether a text holds a marker that reads a member of `inputs` (`is_input_query`). -/
def readsInputs : Text → Bool
  | [] => false
  | c :: t => beginsInputMarker (c :: t) || readsInputs t

/-- The class of a text (`dependency_class`). -/
def ofText (t : Text) : Dependency :=
  if !isReactive t then static else if readsInputs t then inputReactive else reactive

end Dependency

end PageQueries
