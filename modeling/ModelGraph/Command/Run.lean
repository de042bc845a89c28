/-
# Running commands

A run takes arguments and files and gives what is printed and the exit code: 0 if all
went well, 1 if a document failed, 2 if a file, a setting or an argument is at fault.
-/
import ModelGraph.Command.Basic
import ModelGraph.Metrics
import ModelGraph.Settings.Load
import ModelGraph.Workspace.Find

namespace ModelGraph

structure RunResult where
  code : Nat := 0
  output : String := ""
  errors : String := ""
  metrics : Option (String × Metrics) := none
  deriving Repr, BEq, Inhabited

namespace RunResult

def fault (message : String) : RunResult := { code := 2, errors := "Error: " ++ message ++ "\n" }

def print (text : String) : RunResult := { output := text }

end RunResult

structure CompileRequest where
  json : Bool := false
  quiet : Bool := false
  strict : Bool := false
  schemaOnly : Bool := false
  /-- The path of an element to print; none if it is empty. -/
  dump : String := ""
  deriving Repr, BEq, DecidableEq, Inhabited

/-- Whether a report tells of a document that could not be read. -/
def Report.isUnreadable (r : Report) : Bool :=
  r.errors.any fun e => e.rule = ErrorKind.input.name || e.rule = ErrorKind.reading.name

def CheckResult.code (r : CheckResult) (strict : Bool) : Nat :=
  if r.report.isUnreadable then 2 else if r.failed strict then 1 else 0

def checkFile (w : Workspace) (session path : String) (o : CheckOptions) : CheckResult :=
  match w.read path with
  | .error f => { report := Report.add { file := path } (inaccessible path (f.message path)) }
  | .ok text => checkDocument path session text o

namespace CompileRequest

def render (q : CompileRequest) (r : Report) : String :=
  if q.quiet then "" else if q.json then r.json ++ "\n" else r.text

def dumped? (q : CompileRequest) (r : CheckResult) : Option Element :=
  if q.dump = "" then none else r.model.bind fun m => m.element? q.dump

def renderResult (q : CompileRequest) (r : CheckResult) : String :=
  q.render r.report ++
    match q.dumped? r with
    | some e => toString (repr e) ++ "\n"
    | none => ""

end CompileRequest

def compileFiles (q : CompileRequest) (results : List CheckResult) : RunResult :=
  let code := (results.map fun r => r.code q.strict).foldl max 0
  let output := String.join (results.map q.renderResult)
  if q.dump != "" && !q.schemaOnly && results.all fun r => (q.dumped? r).isNone then
    { code := 2
      output
      errors := "Error: element " ++ quoted q.dump ++ " not found in any compiled file\n" }
  else { code, output }

namespace Command

/-- The settings of a run: those of the files, with what flags put over them. -/
def settings (w : Workspace) (a : Arguments) : Except String Settings := do
  let s ← Settings.load w ((a.text? "config").getD "")
  let s := { s with
    level := (a.text? "log-level").getD s.level
    format := (a.text? "log-format").getD s.format
    metricsFile := (a.text? "metrics-file").getD s.metricsFile }
  s.validate

def runCompile (w : Workspace) (session : Nat → String) (a : Arguments) :
    Except String RunResult := do
  let format := (a.text? "format").getD "text"
  if format != "text" && format != "json" then
    throw ("invalid format " ++ quoted format ++ " (use text or json)")
  let s ← settings w a
  let files ← w.expand a.words
  let build ← s.options
  let q : CompileRequest :=
    { json := format = "json", quiet := a.isOn "quiet", strict := a.isOn "strict",
      schemaOnly := a.isOn "schema-only", dump := (a.text? "dump").getD "" }
  let results := files.zipIdx.map fun (path, i) =>
    checkFile w (session i) path { schemaOnly := q.schemaOnly, build }
  let outcome := compileFiles q results
  let metrics := results.foldl Metrics.recordCheck {}
  return { outcome with
    metrics := if s.metricsFile = "" then none else some (s.metricsFile, metrics) }

def runWith (w : Workspace) (session : Nat → String) (c : Command) (a : Arguments) : RunResult :=
  if a.isOn "help" then .print c.helpText
  else match c with
    | root =>
      if a.isOn "version" then .print (program ++ " version " ++ programVersion ++ "\n")
      else .print c.helpText
    | version =>
      match a.words with
      | [] => .print (program ++ " " ++ programVersion ++ "\n")
      | word :: _ => .fault (unknownWord word version)
    | help => .print (helpOn a.words)
    | completion => .print c.helpText
    | script _ =>
      match a.words with
      | [] => {}
      | word :: _ => .fault (unknownWord word c)
    | compile =>
      if a.words.isEmpty then .fault "requires at least 1 arg(s), only received 0"
      else match runCompile w session a with
        | .ok outcome => outcome
        | .error message => .fault message

def run (w : Workspace) (session : Nat → String) (args : List String) : RunResult :=
  match find args with
  | .error word => .fault (unknownCommand word)
  | .ok (c, args) =>
    match Arguments.parse (c.flags ++ globalFlags) args with
    | .error f => .fault f.message
    | .ok a => runWith w session c a

end Command
end ModelGraph
