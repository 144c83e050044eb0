import PageQueries.Path
import PageQueries.Text.Digit

/-!
# Command line arguments

The arguments name one of four actions and the page that it is for.  Options may be shortened as
long as they are unambiguous, take their value from the same argument behind an equals sign or from
the next one, and may stand before and after the page.  Flags of one letter may share one argument.
Two dashes end the options; two dashes behind an equals sign are a value of which nothing is left.
-/
namespace PageQueries

inductive UsageStop where
  /-- They are in error. -/
  | misuse
  /-- They ask for help. -/
  | help
  deriving DecidableEq, Repr

inductive FlagOption where
  | help
  | verbose
  | dev
  deriving DecidableEq, Repr

inductive ValueOption where
  | storeDir
  | output
  | outputDir
  | script
  | context
  deriving DecidableEq, Repr

/-- What the spelling of an option means. -/
inductive OptionMeaning where
  | flag (f : FlagOption)
  | value (v : ValueOption)
  deriving DecidableEq, Repr

/-- The spellings of options that are known at some place. -/
abbrev OptionTable := List (Text × OptionMeaning)

/-- What an option's argument carries beside the option. -/
inductive Attached where
  | nothing
  /-- What stands behind the equals sign of an option that is a word. -/
  | value (t : Text)
  /-- What follows an option of one letter, an equals sign between them left out. -/
  | letters (t : Text)
  deriving DecidableEq, Repr

/-- What one argument is read as. -/
inductive Reading where
  /-- Two dashes: everything behind them is a word. -/
  | separator
  | word
  | option (meaning : OptionMeaning) (attached : Attached)
  | unknownOption
  deriving DecidableEq, Repr

/-- An argument with its reading. -/
abbrev Token := Text × Reading

namespace Arguments

/-- A text without one line feed at its end. -/
def dropLineFeed (t : Text) : Text := if t.getLast? = some '\n' then t.dropLast else t

/-- Whether a word that begins with a dash is a negative number and so no option. -/
def isNegativeNumber (t : Text) : Bool :=
  match dropLineFeed t with
  | '-' :: r =>
    match r.dropWhile Text.isDecimalDigit with
    | [] => !r.isEmpty
    | '.' :: ds => !ds.isEmpty && ds.all Text.isDecimalDigit
    | _ => false
  | _ => false

/-- A text cut at its first equals sign. -/
def cutEquals (t : Text) : Text × Attached :=
  match t.takeWhile (· != '='), t.dropWhile (· != '=') with
  | [dash, letter], _ :: r => ([dash, letter], if letter = '-' then .value r else .letters r)
  | spelling, _ :: r => (spelling, .value r)
  | _, [] => (t, .nothing)

/-- The options that an argument may stand for if it is no exact spelling. -/
def candidates (table : OptionTable) (t : Text) : List (OptionMeaning × Attached) :=
  match t with
  | '-' :: '-' :: _ =>
    let (spelling, attached) := cutEquals t
    (table.filter fun e => spelling.isPrefixOf e.1).map fun e => (e.2, attached)
  | '-' :: c :: r =>
    (table.filter fun e => e.1 = ['-', c]).map fun e => (e.2, .letters r)
  | _ => []

/-- Reads one argument before any separator. -/
def readOne (table : OptionTable) (t : Text) : Except UsageStop Reading :=
  match t with
  | '-' :: _ :: _ =>
    let (spelling, attached) := cutEquals t
    match table.lookup t, table.lookup spelling with
    | some m, _ => .ok (.option m .nothing)
    | none, some m => .ok (.option m attached)
    | none, none =>
      match candidates table t with
      | (m, attached) :: [] => .ok (.option m attached)
      | _ :: _ :: _ => .error .misuse
      | [] => .ok (if isNegativeNumber t || t.contains ' ' then .word else .unknownOption)
  | _ => .ok .word

def readAll (table : OptionTable) : List Text → Except UsageStop (List Token)
  | [] => .ok []
  | t :: ts =>
    if t = ['-', '-'] then .ok ((t, .separator) :: ts.map (·, .word))
    else do
      let reading ← readOne table t
      let rest ← readAll table ts
      return (t, reading) :: rest

/-- The flags that letters stand for. -/
def flagsOf (table : OptionTable) : Text → Except UsageStop (List FlagOption)
  | [] => .ok []
  | c :: r =>
    match table.lookup ['-', c] with
    | some (.flag f) => (flagsOf table r).map (f :: ·)
    | _ => .error .misuse

/-- The flags of an argument that begins with a flag. -/
def flagsIn (table : OptionTable) (f : FlagOption) :
    Attached → Except UsageStop (List FlagOption)
  | .nothing => .ok [f]
  | .value _ | .letters [] => .error .misuse
  | .letters t => (flagsOf table t).map (f :: ·)

/-- The value of an option: two dashes leave nothing of it. -/
def valueOf (t : Text) : Option Text := if t = ['-', '-'] then none else some t

/-- What arguments have told so far. -/
structure Told where
  /-- The page, once it has been told. -/
  file : Option Text
  flags : List FlagOption
  /-- The values of options, latest first, as far as anything is left of them. -/
  values : List (ValueOption × Option Text)
  /-- Whether an argument has no meaning. -/
  surplus : Bool

namespace Told

def nothing : Told := ⟨none, [], [], false⟩

def withValue (s : Told) (v : ValueOption) (t : Text) : Told :=
  { s with values := (v, valueOf t) :: s.values }

/-- Adds flags, of which the one for help ends everything. -/
def withFlags (s : Told) (fs : List FlagOption) : Except UsageStop Told :=
  if fs.contains .help then .error .help else .ok { s with flags := s.flags ++ fs }

end Told

def takeOption (table : OptionTable) (s : Told) (m : OptionMeaning) (attached : Attached)
    (rest : List Token) : Except UsageStop (Told × Bool) :=
  match m, attached, rest with
  | .flag f, attached, _ => do
    let s ← s.withFlags (← flagsIn table f attached)
    return (s, false)
  | .value v, .value t, _ => .ok (s.withValue v t, false)
  | .value v, .nothing, (t, .word) :: _ => .ok (s.withValue v t, true)
  | .value _, _, _ => .error .misuse

/-- Reads the arguments of an action: one page, and options around it. -/
def takeAction (table : OptionTable) (s : Told) : List Token → Except UsageStop Told
  | [] => .ok s
  | (_, .separator) :: rest =>
    match s.file, rest with
    | none, (t, _) :: rest => .ok { s with file := some t, surplus := s.surplus || !rest.isEmpty }
    | _, _ => .ok { s with surplus := true }
  | (t, .word) :: rest =>
    match s.file, rest with
    | none, [(_, .separator)] => .ok { s with file := some t }
    | none, _ => takeAction table { s with file := some t } rest
    | some _, _ => takeAction table { s with surplus := true } rest
  | (_, .unknownOption) :: rest => takeAction table { s with surplus := true } rest
  | (_, .option m attached) :: rest => do
    let (s, usesNext) ← takeOption table s m attached rest
    match usesNext, rest with
    | true, _ :: rest => takeAction table s rest
    | _, rest => takeAction table s rest

/-- The options before the action. -/
def mainTable : OptionTable :=
  [("-h".toList, .flag .help), ("--help".toList, .flag .help), ("--dev".toList, .flag .dev),
    ("--store-dir".toList, .value .storeDir), ("--verbose".toList, .flag .verbose),
    ("-v".toList, .flag .verbose)]

inductive ActionName where
  | markup
  | script
  | build
  | classify
  deriving DecidableEq, Repr

def ActionName.ofText? (t : Text) : Option ActionName :=
  [("markup", markup), ("script", script), ("build", build), ("classify", classify)].lookup
    (String.ofList t)

def ActionName.table (a : ActionName) : OptionTable :=
  let help : OptionTable := [("-h".toList, .flag .help), ("--help".toList, .flag .help)]
  let output := ("--output".toList, OptionMeaning.value .output)
  let script := ("--script".toList, OptionMeaning.value .script)
  match a with
  | .markup => help ++ [output]
  | .script => help ++ [script, ("--context".toList, .value .context), output]
  | .build => help ++ [script, ("--output-dir".toList, .value .outputDir)]
  | .classify => help

/-- Reads the options before the action, the action, and the rest. -/
def takeMain (s : Told) : List Token → Except UsageStop (ActionName × Told)
  | [] => .error .misuse
  | (_, .separator) :: _ => .error .misuse
  | (t, .word) :: rest =>
    match ActionName.ofText? t with
    | none => .error .misuse
    | some a => do
      let tokens ← readAll a.table (rest.map Prod.fst)
      let s ← takeAction a.table s tokens
      return (a, s)
  | (_, .unknownOption) :: rest => takeMain { s with surplus := true } rest
  | (_, .option m attached) :: rest => do
    let (s, usesNext) ← takeOption mainTable s m attached rest
    match usesNext, rest with
    | true, _ :: rest => takeMain s rest
    | _, rest => takeMain s rest

end Arguments

/-- A path that an option tells. -/
inductive Target where
  | path (p : Path)
  /-- The option has a value of which nothing is left. -/
  | void
  deriving DecidableEq, Repr

def Target.path? : Target → Option Path
  | path p => some p
  | void => none

inductive Action where
  | markup (output : Option Target)
  | script (script : Option Path) (context : Option Text) (output : Option Target)
  | build (script : Option Path) (outputDir : Target)
  | classify
  deriving DecidableEq, Repr

/-- What the arguments ask for. -/
structure Invocation where
  dev : Bool
  storeDir : Option Target
  file : Path
  action : Action
  deriving DecidableEq, Repr

namespace Invocation

/-- The invocation that the told arguments make, if none is missing and none is left.  A script and
a context of which nothing is left count as not given. -/
def ofTold (a : Arguments.ActionName) (s : Arguments.Told) : Except UsageStop Invocation :=
  match s.file, s.surplus with
  | some file, false =>
    let target? (v : ValueOption) : Option Target :=
      (s.values.lookup v).map fun value => (value.map fun t => .path (.ofText t)).getD .void
    let script := (target? .script).bind Target.path?
    let action : Action := match a with
      | .markup => .markup (target? .output)
      | .script => .script script ((s.values.lookup .context).getD none) (target? .output)
      | .build => .build script ((target? .outputDir).getD (.path (.ofText ['.'])))
      | .classify => .classify
    .ok ⟨s.flags.contains .dev, target? .storeDir, .ofText file, action⟩
  | _, _ => .error .misuse

/-- Reads arguments (`create_parser`). -/
def ofArguments (args : List Text) : Except UsageStop Invocation := do
  let tokens ← Arguments.readAll Arguments.mainTable args
  let (a, s) ← Arguments.takeMain .nothing tokens
  ofTold a s

end Invocation

end PageQueries
