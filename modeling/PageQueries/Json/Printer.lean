import PageQueries.Json.Basic
import PageQueries.Text.Quoted

/-!
# Writing JSON

`render` writes a value on one line in ASCII: a comma or a colon is followed by a space, and
characters beyond `~` are escaped by their UTF-16 code units.  `renderIndented` puts every item and
every member on a line of its own.
-/
namespace PageQueries.Json

/-- A code unit of UTF-16 in four digits. -/
def unitEscape (u : Nat) : Text := ['\\', 'u'] ++ Text.hex 4 u

/-- A character within a string. -/
def escapeChar (c : Char) : Text :=
  let n := c.toNat
  if c = '"' then ['\\', '"']
  else if c = '\\' then ['\\', '\\']
  else if c = '\n' then ['\\', 'n']
  else if c = '\r' then ['\\', 'r']
  else if c = '\t' then ['\\', 't']
  else if c = '\x08' then ['\\', 'b']
  else if c = '\x0c' then ['\\', 'f']
  else if 0x20 ≤ n ∧ n ≤ 0x7e then [c]
  else if n < 0x10000 then unitEscape n
  else
    unitEscape (0xd800 + (n - 0x10000) / 0x400) ++ unitEscape (0xdc00 + (n - 0x10000) % 0x400)

/-- A string with its quotes. -/
def renderText (t : Text) : Text := '"' :: t.flatMap escapeChar ++ ['"']

/-- The spelling of a floating-point number. -/
def renderFloat : Binary64 → Text
  | .finite negative m e => Binary64.spellFinite negative m e
  | .infinity negative => if negative then "-Infinity".toList else "Infinity".toList
  | .nan => "NaN".toList

mutual

/-- A value on one line. -/
def render : Json → Text
  | null => "null".toList
  | bool true => "true".toList
  | bool false => "false".toList
  | int n => Text.ofInt n
  | float x => renderFloat x
  | text t => renderText t
  | array items => '[' :: Text.join ", ".toList (renderItems items) ++ [']']
  | object members => '\x7b' :: Text.join ", ".toList (renderMembers members) ++ ['\x7d']

def renderItems : List Json → List Text
  | [] => []
  | v :: vs => render v :: renderItems vs

def renderMembers : List (Text × Json) → List Text
  | [] => []
  | (name, v) :: ms => (renderText name ++ ": ".toList ++ render v) :: renderMembers ms

end

def newLine (level : Nat) : Text := '\n' :: List.replicate (2 * level) ' '

/-- Lines between brackets, one level further in; nothing between the brackets of an empty list. -/
def bracketed (opening closing : Char) (level : Nat) : List Text → Text
  | [] => [opening, closing]
  | lines =>
    opening :: newLine (level + 1) ++ Text.join (',' :: newLine (level + 1)) lines
      ++ newLine level ++ [closing]

mutual

/-- A value on several lines, at an indentation level. -/
def renderAt (level : Nat) : Json → Text
  | array items => bracketed '[' ']' level (renderItemsAt (level + 1) items)
  | object members => bracketed '\x7b' '\x7d' level (renderMembersAt (level + 1) members)
  | null => render null
  | bool b => render (bool b)
  | int n => render (int n)
  | float x => render (float x)
  | text t => render (text t)

def renderItemsAt (level : Nat) : List Json → List Text
  | [] => []
  | v :: vs => renderAt level v :: renderItemsAt level vs

def renderMembersAt (level : Nat) : List (Text × Json) → List Text
  | [] => []
  | (name, v) :: ms =>
    (renderText name ++ ": ".toList ++ renderAt level v) :: renderMembersAt level ms

end

/-- A value on several lines, two spaces for each level. -/
def renderIndented (v : Json) : Text := renderAt 0 v

end PageQueries.Json
