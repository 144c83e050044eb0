import PageQueries.Command.Arguments
import PageQueries.FileTree
import PageQueries.Preprocessor
import PageQueries.Settings.Environment

/-!
# The command

Runs a phase, or both, on a page in a file tree, or reports how its queries are classified.  The
command ends with an exit code; everything that it refuses to do is told in one line.  It is broken
off by a page or a script that is not UTF-8, by a stored entry that cannot be used, and by a path
that cannot be one.
-/
namespace PageQueries

/-- What a run has done so far. -/
structure Progress where
  tree : FileTree
  /-- What has been printed. -/
  output : Text
  warnings : List Warning

/-- Why a run is broken off. -/
inductive Breakage where
  | notUtf8 (e : Utf8.DecodeError)
  /-- A stored query is no text. -/
  | notText (v : Json)
  /-- A stored entry exceeds a limit. -/
  | limit (l : Json.Limit)
  /-- The page cannot even be looked for. -/
  | page (e : FileError)
  /-- A path holds the character NUL. -/
  | nulInPath
  /-- The output, or the folder of the outputs, has a value of which nothing is left. -/
  | voidOutput
  | voidOutputDir

def Breakage.message : Breakage → Text
  | notUtf8 e => e.message
  | notText v => (PageError.notText v).message
  | limit l => l.message
  | page e => e.message
  | nulInPath => "embedded null byte".toList
  | voidOutput => "'list' object has no attribute 'parent'".toList
  | voidOutputDir => "'list' object has no attribute 'mkdir'".toList

/-- Why a run ends early. -/
inductive RunFailure where
  | configuration (violations : List Violation)
  | file (e : FileError)
  | page (e : PageError)
  | broken (b : Breakage)

inductive RunEnd where
  | exit (code : Nat)
  | brokenOff (b : Breakage)

abbrev Run (α : Type) := ExceptT RunFailure (StateM Progress) α

def Target.toJson : Target → Json
  | .path p => .text p.text
  | .void => .array []

namespace Command

def print (t : Text) : Run Unit := modify fun s => { s with output := s.output ++ t }

/-- Prints a line that tells why the run ends. -/
def refuse (reason : Text) : Run Nat := do
  print ("ERROR: ".toList ++ reason ++ ['\n'])
  return 1

/-- Whether a path holds the character NUL and so can be no path of a file. -/
def hasNul (p : Path) : Bool := p.text.contains '\x00'

/-- Does something with a path of the file tree. -/
def onTree {α : Type} (p : Path) (f : FileTree → Path → Except FileError α) : Run α := do
  if hasNul p then throw (.broken .nulInPath)
  match f (← get).tree p with
  | .ok a => return a
  | .error e => throw (.file e)

/-- Changes the file tree at a path. -/
def changeTree (p : Path) (f : FileTree → Path → Except FileError FileTree) : Run Unit := do
  let tree ← onTree p f
  modify fun s => { s with tree }

/-- Reads a file as text with line feeds at the ends of its lines. -/
def readText (p : Path) : Run Text := do
  match Utf8.decode (← onTree p (·.read ·)) with
  | .ok t => return Text.unifyLineEnds t
  | .error e => throw (.broken (.notUtf8 e))

def readOptional : Option Path → Run Text
  | none => return []
  | some p => readText p

def writeText (t : Text) (p : Path) : Run Unit := do
  changeTree p.parent (·.ensureFolders ·)
  changeTree p (·.write · (Utf8.encode t))
  print ("   [OK] Written to: ".toList ++ p.text ++ ['\n'])

/-- Prints a text, or writes it to a file (`write_output`). -/
def writeOutput (t : Text) : Option Target → Run Unit
  | none => print t
  | some (.path p) => writeText t p
  | some .void => throw (.broken .voidOutput)

/-- The values that the arguments override settings with. -/
def overrides (i : Invocation) : List (Text × Json) :=
  (if i.dev then [(Settings.Field.developmentMode.name, .bool true)] else [])
    ++ (i.storeDir.map fun t => (Settings.Field.storeDir.name, t.toJson)).toList

/-- The settings of a run (`build_preprocessor`).  The folder of stored queries is made if need
be. -/
def settings (env : Environment) (i : Invocation) : Run Settings := do
  match Settings.ofEnvironment env (overrides i) with
  | .error vs => throw (.configuration vs)
  | .ok s =>
    match s.storeDir with
    | none => pure ()
    | some p => changeTree p (·.ensureFolders ·)
    return s

/-- The store of a run: the folder of stored queries, else a new one in memory. -/
def storeIn (codec : Codec) (tree : FileTree) (s : Settings) : Store :=
  match s.storeDir with
  | none => .memory .new
  | some p => .disk (.onFiles (tree.filesOf p) (some codec))

/-- Writes what a phase has changed in the folder of stored queries. -/
def saveStore (s : Settings) (before after : Store) : Run Unit := do
  match s.storeDir, before, after with
  | some p, .disk b, .disk a => changeTree p (·.update · b.files a.files)
  | _, _, _ => pure ()

def warn (ws : List Warning) : Run Unit := modify fun s => { s with warnings := s.warnings ++ ws }

/-- The file of a page's entry in a folder of stored queries. -/
def entryPath (folder page : Path) : Path :=
  folder.child (DiskStore.fileOf (Hooks.default.routeKey page.text))

/-- Ends the run if the entry of a page cannot be a file: if a folder has its name, or its path is
too long.  An entry that is to be read and turns out to be a folder is warned of as corrupt. -/
def checkEntry (s : Settings) (page : Path) (reading : Bool) : Run Unit := do
  match s.storeDir.map (entryPath · page) with
  | none => pure ()
  | some p =>
    match (← get).tree.find p with
    | .ok .folder => do
      if reading then warn [.corruptEntry p.name]
      throw (.file ⟨.isFolder, p⟩)
    | .error .nameTooLong => throw (.file ⟨.nameTooLong, p⟩)
    | _ => pure ()

/-- Runs phases with the default hooks. -/
def onPage {α : Type} (codec : Codec) (s : Settings) (f : Hooks → Preprocessor → Outcome α) :
    Run α := do
  let before := storeIn codec (← get).tree s
  let outcome := f .default ⟨s, before⟩
  warn outcome.warnings
  saveStore s before outcome.after.store
  match outcome.answer with
  | .ok a => return a
  | .error e => throw (.page e)

/-- Runs the markup phase (`run_markup`). -/
def markup (codec : Codec) (env : Environment) (i : Invocation) (output : Option Target) :
    Run Nat := do
  let s ← settings env i
  let content ← readText i.file
  if s.manages i.file.text then checkEntry s i.file false
  let result ← onPage codec s fun h p => p.markup h content i.file.text
  writeOutput (result.getD content) output
  return 0

/-- What the script phase tells if no folder of stored queries is given. -/
def noStoreMessage : Text :=
  ("The script phase needs --store-dir or QUERYBIND_STORE_DIR "
    ++ "pointing at the store written by the markup phase").toList

/-- The attributes of a script block that has the given context, if any. -/
def attributesOf : Option Text → List (Text × Json)
  | none | some [] => []
  | some context => [("context".toList, .text context)]

/-- Runs the script phase (`run_script`). -/
def script (codec : Codec) (env : Environment) (i : Invocation) (script : Option Path)
    (context : Option Text) (output : Option Target) : Run Nat := do
  let s ← settings env i
  if s.storeDir.isNone then refuse noStoreMessage
  else
    let content ← readOptional script
    let attributes := attributesOf context
    if s.manages i.file.text && !Preprocessor.isModule attributes then checkEntry s i.file true
    let result ← onPage codec s fun h p => p.script h content i.file.text attributes
    writeOutput (result.getD content) output
    return 0

/-- Where the markup and the script of a page are written. -/
def outputsOf (page outputDir : Path) : Path × Path :=
  (outputDir.child (page.stem ++ ".markup".toList ++ page.suffix),
    outputDir.child (page.stem ++ ".script.js".toList))

/-- Runs both phases and writes their results next to each other (`run_build`). -/
def build (codec : Codec) (env : Environment) (i : Invocation) (script : Option Path)
    (outputDir : Target) : Run Nat := do
  let s ← settings env i
  let content ← readText i.file
  let scriptContent ← readOptional script
  if s.manages i.file.text then checkEntry s i.file false
  match ← onPage codec s fun h p => p.process h content i.file.text scriptContent [] with
  | (some markup, some script) =>
    match outputDir with
    | .void => throw (.broken .voidOutputDir)
    | .path folder =>
      changeTree folder (·.ensureFolders ·)
      let outputs := outputsOf i.file folder
      writeText markup outputs.1
      writeText script outputs.2
      return 0
  | _ =>
    refuse (i.file.text ++ " is not a managed page (expected suffix ".toList ++ s.extension
      ++ ")".toList)

/-- Reports how the queries of a page are classified (`run_classify`). -/
def classify (i : Invocation) : Run Nat := do
  let content ← readText i.file
  let queries := Preprocessor.queriesOf (Fence.extract Fence.defaultLanguage content)
  warn (Classification.reservedWarnings queries)
  print (Json.renderIndented (Classification.classify queries).toJson ++ ['\n'])
  return 0

def perform (codec : Codec) (env : Environment) (i : Invocation) : Run Nat :=
  match i.action with
  | .markup output => markup codec env i output
  | .script script context output => Command.script codec env i script context output
  | .build script outputDir => build codec env i script outputDir
  | .classify => classify i

/-- Ends a run because values of a model were not accepted. -/
def refuseModel (model : Text) (vs : List Violation) : Run RunEnd :=
  .exit <$> refuse ("Invalid configuration: ".toList ++ Violation.reportOn model vs)

/-- Ends a run that has met a failure. -/
def conclude : RunFailure → Run RunEnd
  | .configuration vs => refuseModel Settings.model vs
  | .file e => .exit <$> refuse e.message
  | .page (.notText v) => return .brokenOff (.notText v)
  | .page (.limit l) => return .brokenOff (.limit l)
  | .page (.invalidRecord vs) => refuseModel Record.model vs
  | .page (.invalidQueries vs) => refuseModel Classification.model vs
  | .page e => .exit <$> refuse e.message
  | .broken b => return .brokenOff b

/-- An invocation's run (`main`).  The page must exist; a path that holds the character NUL leads
nowhere. -/
def invoke (codec : Codec) (env : Environment) (i : Invocation) : Run RunEnd := do
  let missing := "File not found: ".toList ++ i.file.text
  if hasNul i.file then .exit <$> refuse missing
  else
    match (← get).tree.find i.file with
    | .ok _ => tryCatch (RunEnd.exit <$> perform codec env i) conclude
    | .error .nameTooLong => return .brokenOff (.page ⟨.nameTooLong, i.file⟩)
    | .error _ => .exit <$> refuse missing

/-- Runs a command line in a file tree; stored queries are compressed by the given codec. -/
def runWith (codec : Codec) (env : Environment) (tree : FileTree) (args : List Text) :
    RunEnd × Progress :=
  let start : Progress := ⟨tree, [], []⟩
  match Invocation.ofArguments args with
  | .error .misuse => (.exit 2, start)
  | .error .help => (.exit 0, start)
  | .ok i =>
    match (invoke codec env i).run.run start with
    | (.ok e, s) => (e, s)
    | (.error _, s) => (.exit 1, s)

/-- Runs a command line in a file tree; stored queries are compressed into frames. -/
def run (env : Environment) (tree : FileTree) (args : List Text) : RunEnd × Progress :=
  runWith Frame.codec env tree args

end Command

end PageQueries
