import PageQueries.Command.Basic

/-!
# The footprint of a run

Which paths a run may read, write or remove.  A program that runs the command on real files needs
to know no others.
-/
namespace PageQueries

/-- The paths that an action names, apart from the page. -/
def Action.paths (page : Path) : Action → List Path
  | .markup output => (output.bind Target.path?).toList
  | .script given _ output => given.toList ++ (output.bind Target.path?).toList
  | .build given outputDir =>
    let outputs := outputDir.path?.map (Command.outputsOf page)
    given.toList ++ (outputs.map fun o => [o.1, o.2]).getD []
  | .classify => []

namespace Command

/-- The folder of stored queries of a run. -/
def storeDirOf (env : Environment) (i : Invocation) : Option Path :=
  match Settings.ofEnvironment env (overrides i) with
  | .ok s => s.storeDir
  | .error _ => none

/-- The paths that a run may touch, folders above them left out. -/
def footprint (env : Environment) (i : Invocation) : List Path :=
  let entry := (storeDirOf env i).map (entryPath · i.file)
  i.file :: i.action.paths i.file ++ entry.toList

end Command

end PageQueries
