import PageQueries.Text.Basic

/-!
# Generated code

Code is written as text, but the places where a name is bound, a variable is assigned or a
parameter begins its scope are kept apart, so that the scopes of the written text can be spoken of.
-/
namespace PageQueries.Script

/-- A piece of code. -/
inductive Code where
  /-- Text that neither binds nor assigns a name. -/
  | text (t : Text)
  /-- The place where a name of the page is bound; written as the name. -/
  | bind (name : Text)
  /-- An assignment of a result to a variable. -/
  | assign (target value : Text)
  /-- A function of one parameter: the parameter in parentheses, the mark between it and the body,
  and the body. -/
  | function (parameter mark : Text) (body : Code)
  /-- One piece after the other. -/
  | append (first second : Code)

namespace Code

instance : Append Code := ⟨append⟩

/-- Text given as a string. -/
def lit (s : String) : Code := text s.toList

/-- Pieces one after the other. -/
def concat (cs : List Code) : Code := cs.foldr append (text [])

/-- Lines, each but the last followed by a line feed. -/
def lines : List Code → Code
  | [] => text []
  | [c] => c
  | c :: cs => c ++ text ['\n'] ++ lines cs

def arrow (parameter : String) (body : Code) : Code :=
  function parameter.toList " => ".toList body

/-- An import of names from a module. -/
def importNames (names : List String) (source : Text) : Code :=
  lit "import \x7b " ++ concat ((names.map fun n => bind n.toList).intersperse (lit ", "))
    ++ lit " \x7d from '" ++ text source ++ lit "';"

def render : Code → Text
  | text t => t
  | bind name => name
  | assign target value => target ++ " = ".toList ++ value
  | function parameter mark body => '(' :: parameter ++ ')' :: mark ++ body.render
  | append first second => first.render ++ second.render

/-- The names that a piece of code binds, in order. -/
def bound : Code → List Text
  | text _ => []
  | bind name => [name]
  | assign _ _ => []
  | function _ _ body => body.bound
  | append first second => first.bound ++ second.bound

/-- The variables that a piece of code assigns, each with the parameters in whose scope the
assignment stands, innermost first. -/
def assignments (scope : List Text) : Code → List (Text × List Text)
  | text _ => []
  | bind _ => []
  | assign target _ => [(target, scope)]
  | function parameter _ body => body.assignments (parameter :: scope)
  | append first second => first.assignments scope ++ second.assignments scope

end Code

end PageQueries.Script
