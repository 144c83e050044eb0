import PageQueries.Command.Footprint

/-!
# The program

Runs the command on the computer's files: looks at what the run may touch, runs the command on that
picture, and writes back what the run has changed.
-/
namespace PageQueries.Program

/-- What stands at a path, as far as it can be read. -/
def look (path : String) : IO (Option Node) := do
  try
    let content ← IO.FS.readBinFile path
    return some (.file content.toList)
  catch
    | .inappropriateType .. => return some .folder
    | _ => return none

/-- The names that a path leads through, each with all names before it. -/
def steps (p : Path) : List Path :=
  (List.range p.parts.length).map fun n => ⟨p.root, p.parts.take (n + 1)⟩

/-- Adds what stands at a path to a tree. -/
def addPath (t : FileTree) (p : Path) : IO FileTree := do
  match t.placeOf p with
  | .error _ => return t
  | .ok place =>
    match ← look (String.ofList p.text) with
    | some node => return t.put place node
    | none => return t

/-- The tree of the given paths and of all folders above them. -/
def picture (current : Path) (paths : List Path) : IO FileTree :=
  (current :: paths).flatMap steps |>.foldlM addPath ⟨.empty, current.parts⟩

def pathAt (place : List Text) : String := String.ofList (Path.text ⟨['/'], place⟩)

/-- Writes a node that is new or changed. -/
def writeNode (before : FileTree) (place : List Text) : Node → IO Unit
  | .folder => if (before.at? place).isNone then IO.FS.createDirAll (pathAt place) else pure ()
  | .file content =>
    match before.at? place with
    | some (.file old) =>
      if old = content then pure ()
      else IO.FS.writeBinFile (pathAt place) ⟨content.toArray⟩
    | _ => IO.FS.writeBinFile (pathAt place) ⟨content.toArray⟩

def writeBack (before after : FileTree) : IO Unit := do
  for place in before.nodes.keys do
    if (after.at? place).isNone then IO.FS.removeFile (pathAt place)
  for (place, node) in after.nodes.toList do
    writeNode before place node

/-- The variables that settings are read from. -/
def environment : IO Environment := do
  let values ← Settings.Field.order.filterMapM fun f => do
    let value ← IO.getEnv (String.ofList f.variableName)
    return value.map fun v => (f.variableName, v.toList)
  return .ofList values

/-- What is told when the arguments are in error or ask for help. -/
def usage : String :=
  "usage: [--dev] [--store-dir FOLDER] [--verbose] (markup | script | build | classify) PAGE ..."

/-- Runs an invocation in the current folder. -/
def runInvocation (args : List Text) (i : Invocation) : IO UInt32 := do
  let env ← environment
  let current := Path.ofText (← IO.currentDir).toString.toList
  let before ← picture current (Command.footprint env i)
  let (e, after) := Command.run env before args
  writeBack before after.tree
  for w in after.warnings do
    IO.eprintln ("WARNING: " ++ String.ofList w.message)
  IO.print (String.ofList after.output)
  match e with
  | .exit code => return UInt32.ofNat code
  | .brokenOff b =>
    IO.eprintln (String.ofList b.message)
    return 1

end PageQueries.Program

open PageQueries in
def main (args : List String) : IO UInt32 := do
  let args := args.map String.toList
  match Invocation.ofArguments args with
  | .ok i => Program.runInvocation args i
  | .error .help =>
    IO.println Program.usage
    return 0
  | .error .misuse =>
    IO.eprintln Program.usage
    return 2
