import PageQueries.OrderedMap
import PageQueries.Text.Blank
import PageQueries.Text.Line

/-!
# Environment files

An environment file sets variables, one to a line: `NAME=value`, with `export` in front if one
likes.  A value may stand in single or double quotes and then span lines; an unquoted value ends
before a blank and a number sign.  A line that does not have this form is skipped.  Values may
refer to variables, `${NAME}` or `${NAME:-default}`.  Variables that the environment already has
are never changed, and one of them can keep files from being loaded at all.

There is no standard of such files.  The readers of them differ in what a backslash in front of a
closing quote does and in whether a value may begin with a comment; here a backslash always takes
the next character with it, and it may.  What becomes of the bindings once they are read is
`loadBindings`, whichever reader has given them.
-/
namespace PageQueries

/-- The variables of a process. -/
abbrev Environment := OrderedMap Text Text

namespace EnvFile

/-- A blank within a line. -/
def isGap (c : Char) : Bool := Text.isBlank c && c != '\n' && c != '\r'

def isLineEnd (c : Char) : Bool := c = '\n' || c = '\r'

/-- A text without the blanks of a line at its start. -/
def skipGap (t : Text) : Text := t.dropWhile isGap

def skipLine (t : Text) : Text :=
  match t.dropWhile (!isLineEnd ·) with
  | '\r' :: '\n' :: r => r
  | _ :: r => r
  | [] => []

/-- A text without the word `export` and the blanks behind it. -/
def skipExport (t : Text) : Text :=
  match Text.after? "export".toList t with
  | some (c :: r) => if isGap c then skipGap r else t
  | _ => t

/-- The characters of a name that is not quoted. -/
def isNameChar (c : Char) : Bool := !Text.isBlank c && c != '=' && c != '#'

/-- Reads the name of a variable; a comment has none. -/
def name? (t : Text) : Option (Option Text × Text) :=
  match t with
  | '#' :: _ => some (none, t)
  | '\'' :: r =>
    match r.takeWhile (· != '\''), r.dropWhile (· != '\'') with
    | c :: name, _ :: r => some (some (c :: name), r)
    | _, _ => none
  | _ =>
    match t.takeWhile isNameChar with
    | [] => none
    | name => some (some name, t.dropWhile isNameChar)

/-- Reads a quoted value up to and with its closing quote.  The character behind a backslash belongs
to the value, whatever it is. -/
def quoted? (quote : Char) : Text → Option (Text × Text)
  | [] => none
  | '\\' :: c :: t => (quoted? quote t).map fun r => ('\\' :: c :: r.1, r.2)
  | c :: t =>
    if c = quote then some ([], t) else (quoted? quote t).map fun r => (c :: r.1, r.2)

/-- Replaces each backslash and the character behind it, if `known` has a meaning for them. -/
def unescape (known : Char → Option Char) : Text → Text
  | [] => []
  | [c] => [c]
  | c :: d :: t =>
    match if c = '\\' then known d else none with
    | some e => e :: unescape known t
    | none => c :: unescape known (d :: t)

/-- The characters that a backslash escapes between single quotes. -/
def singleEscape (c : Char) : Option Char := if c = '\\' || c = '\'' then some c else none

/-- The characters that a backslash gives a meaning between double quotes. -/
def doubleEscape (c : Char) : Option Char :=
  if c = '\\' || c = '\'' || c = '"' then some c
  else if c = 'a' then some '\x07'
  else if c = 'b' then some '\x08'
  else if c = 'f' then some '\x0c'
  else if c = 'n' then some '\n'
  else if c = 'r' then some '\r'
  else if c = 't' then some '\t'
  else if c = 'v' then some '\x0b'
  else none

/-- An unquoted value without the comment behind it. -/
def cutComment : Text → Text
  | [] => []
  | c :: t =>
    if Text.isBlank c && (t.dropWhile Text.isBlank).head? = some '#' then []
    else c :: cutComment t

/-- Reads a value that is not quoted.  The blanks in front of it count where a comment is looked
for, so that the value may be nothing but a comment. -/
def plain (t : Text) : Text × Text :=
  (Text.trim (cutComment (t.takeWhile (!isLineEnd ·))), t.dropWhile (!isLineEnd ·))

/-- Reads what stands behind an equals sign.  If that fails, the result is the text from the place
of failure on. -/
def readValue (t : Text) : Except Text (Text × Text) :=
  match skipGap t with
  | '\'' :: r =>
    match quoted? '\'' r with
    | some (value, r) => .ok (unescape singleEscape value, r)
    | none => .error ('\'' :: r)
  | '"' :: r =>
    match quoted? '"' r with
    | some (value, r) => .ok (unescape doubleEscape value, r)
    | none => .error ('"' :: r)
  | _ => .ok (plain t)

/-- Reads a comment, if there is one, and the end of the line. -/
def finish (t : Text) : Except Text Text :=
  let t := match skipGap t with
    | '#' :: r => r.dropWhile (!isLineEnd ·)
    | _ => t
  match skipGap t with
  | [] => .ok []
  | '\r' :: '\n' :: r => .ok r
  | c :: r => if isLineEnd c then .ok r else .error t

/-- A variable that a file names, with the value that it sets, if any. -/
abbrev Binding := Text × Option Text

/-- Reads one binding, or nothing, and the end of its line.  If that fails, the result is the text
from the place of failure on. -/
def binding (t : Text) : Except Text (Option Binding × Text) :=
  let t := t.dropWhile Text.isBlank
  if t.isEmpty then .ok (none, [])
  else
    let t := skipExport t
    match name? t with
    | none => .error t
    | some (name, r) =>
      match skipGap r with
      | '=' :: r => do
        let (value, r) ← readValue r
        let r ← finish r
        return (name.map (·, some value), r)
      | r => (finish r).map fun r => (name.map (·, none), r)

/-- Reads all bindings, each from at least one character. -/
def bindingsUpTo : (fuel : Nat) → Text → List Binding
  | 0, _ => []
  | fuel + 1, t =>
    if t.isEmpty then []
    else
      match binding t with
      | .ok (some b, r) => b :: bindingsUpTo fuel r
      | .ok (none, r) => bindingsUpTo fuel r
      | .error r => bindingsUpTo fuel (skipLine r)

def skipMark : Text → Text
  | '\uFEFF' :: t => t
  | t => t

def bindings (content : Text) : List Binding :=
  let t := Text.unifyLineEnds (skipMark content)
  bindingsUpTo t.length t

/-- A reference to a variable. -/
structure Reference where
  name : Text
  default : Option Text

/-- Reads a reference, and tells how many characters it has. -/
def reference? (t : Text) : Option (Reference × Nat) := do
  let r ← Text.after? ['$', '\x7b'] t
  let name := r.takeWhile fun c => c != '\x7d' && c != ':'
  match r.dropWhile fun c => c != '\x7d' && c != ':' with
  | '\x7d' :: _ => some (⟨name, none⟩, name.length + 3)
  | ':' :: '-' :: r =>
    let default := r.takeWhile (· != '\x7d')
    if default.length < r.length then
      some (⟨name, some default⟩, name.length + default.length + 5)
    else none
  | _ => none

/-- Replaces the references of a text, of which the first `skip` characters are read already. -/
def expandFrom (resolve : Reference → Text) : (skip : Nat) → Text → Text
  | _, [] => []
  | skip + 1, _ :: t => expandFrom resolve skip t
  | 0, c :: t =>
    match reference? (c :: t) with
    | some (ref, width) => resolve ref ++ expandFrom resolve (width - 1) t
    | none => c :: expandFrom resolve 0 t

/-- What a reference stands for: the variable of the environment, else the one set further up in
the file, else the default.  A variable without a value stands for nothing. -/
def resolve (env : Environment) (set : List Binding) (ref : Reference) : Text :=
  match env.get? ref.name, set.lookup ref.name with
  | some value, _ => value
  | none, some value => value.getD []
  | none, none => ref.default.getD []

/-- The bindings with their references replaced, one after another.  A name that comes again keeps
its position and takes the later value. -/
def expand (env : Environment) (bs : List Binding) : List Binding :=
  bs.foldl (fun set b =>
    Pairs.put b.1 (b.2.map (expandFrom (resolve env set) 0)) set) []

inductive Refusal where
  | nulCharacter
  | illegalName
  deriving DecidableEq, Repr

def Refusal.message : Refusal → Text
  | nulCharacter => "embedded null byte".toList
  | illegalName => "illegal environment variable name".toList

def setVariable (env : Environment) (name value : Text) : Except Refusal Environment :=
  if name.contains '\x00' || value.contains '\x00' then .error .nulCharacter
  else if name.contains '=' then .error .illegalName
  else .ok (env.insert name value)

/-- Sets the variables that have a value and that the environment does not have yet. -/
def setMissing (env : Environment) : List Binding → Except Refusal Environment
  | [] => .ok env
  | (name, value) :: bs =>
    match value with
    | some value =>
      if env.contains name then setMissing env bs
      else (setVariable env name value).bind (setMissing · bs)
    | none => setMissing env bs

/-- The variable that, set to a word for true, keeps files from being loaded. -/
def disablingVariable : Text := "PYTHON_DOTENV_DISABLED".toList

/-- A character with the case of its letter ignored, as far as words for true are concerned: a long
s is an s. -/
def foldCase (c : Char) : Char := if c = '\u017f' then 's' else c.toLower

/-- Whether an environment keeps files from being loaded. -/
def isDisabled (env : Environment) : Bool :=
  match env.get? disablingVariable with
  | some value => (["1", "true", "t", "yes", "y"].map String.toList).contains (value.map foldCase)
  | none => false

/-- The environment after the bindings of a file have been loaded into it. -/
def loadBindings (env : Environment) (file : List Binding) : Except Refusal Environment :=
  if isDisabled env then .ok env else setMissing env (expand env file)

/-- The environment after a file has been loaded into it (`load_dotenv`). -/
def load (env : Environment) (content : Text) : Except Refusal Environment :=
  loadBindings env (bindings content)

end EnvFile

end PageQueries
