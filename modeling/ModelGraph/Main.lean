/-
# The program

Reads the files that a run can ask for by name, runs the command, prints what came of it
and ends with its exit code. Patterns are held against the files that were read.
-/
import ModelGraph.Command.Run
import ModelGraph.Command.Session

namespace ModelGraph

/-- The files among paths that can be read, by the names that lead to them. -/
def readable (w : Workspace) (paths : List String) : IO (List (List String × String)) := do
  let found ← paths.mapM fun (path : String) => do
    try
      let text ← IO.FS.readFile path
      return [(w.locate path, text)]
    catch _ => return []
  return found.flatten

/-- The paths that a run can ask for: those of settings, and all arguments. -/
def namedPaths (w : Workspace) (args : List String) : List String :=
  [Settings.userFile w] ++ Settings.projectFiles w ++ args ++
    args.filterMap fun arg => (arg.splitOn "=")[1]?

def writeMetrics (path : String) (m : Metrics) : IO Unit :=
  IO.FS.writeFile path (String.join (m.series.map fun c => s!"{c.1} {c.2}\n"))

def runProgram (args : List String) : IO UInt32 := do
  let w : Workspace :=
    { home := (← IO.getEnv "HOME").getD "/", directory := (← IO.getEnv "PWD").getD "/" }
  let w := { w with files := ← readable w (namedPaths w args) }
  let seed ← IO.rand 0 0xffffffffffffffffffffffffffffffff
  let result := Command.run w (fun i => sessionName (seed + i)) args
  IO.print result.output
  IO.eprint result.errors
  if let some (path, m) := result.metrics then writeMetrics path m
  return UInt32.ofNat result.code

end ModelGraph

def main (args : List String) : IO UInt32 := ModelGraph.runProgram args
