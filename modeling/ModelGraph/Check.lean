/-
# Checking documents

A check of a document holds it against its schema, decodes it and builds the model. It
ends at the first of these steps that fails, and reports what was found. What a build
did is told for statistics.
-/
import ModelGraph.Build
import ModelGraph.Schema.Document

namespace ModelGraph

structure CheckOptions where
  schemaOnly : Bool := false
  build : Options := {}
  deriving Repr, BEq, DecidableEq, Inhabited

inductive BuildEnd where
  | success | error | unsupported
  deriving Repr, BEq, DecidableEq, Inhabited

namespace BuildEnd

def word : BuildEnd → String
  | success => "success"
  | error => "error"
  | unsupported => "unsupported"

def of : Result Model → BuildEnd
  | .ok _ => success
  | .error f => if f.isUnsupported then unsupported else error

end BuildEnd

structure Observation where
  passes : List String
  ended : BuildEnd
  /-- The numbers of elements by kind; none unless the build succeeded. -/
  elements : List (String × Nat) := []
  warnings : Nat := 0
  deriving Repr, BEq, DecidableEq, Inhabited

structure CheckResult where
  report : Report
  model : Option Model := none
  observed : Option Observation := none

/-- Whether a check failed. A strict check also fails on warnings. -/
def CheckResult.failed (r : CheckResult) (strict : Bool) : Bool :=
  !r.report.errors.isEmpty || (strict && !r.report.warnings.isEmpty)

def unsupportedRule : String := "UNSUPPORTED"

def Failure.finding (f : Failure) (file : String) : Finding :=
  match f.finding? file "" with
  | some found => found
  | none =>
    { rule := if f.isUnsupported then unsupportedRule else ErrorKind.compilation.name
      severity := .error
      message := f.message
      file }

def SchemaError.finding (e : SchemaError) (file : String) : Finding :=
  { rule := if e.unreadable then ErrorKind.reading.name else ErrorKind.schema.name
    severity := .error
    message := e.message
    file
    path := e.path }

def Document.Fault.finding (f : Document.Fault) (file : String) : Finding :=
  { rule := ErrorKind.reading.name
    severity := .error
    message := "failed to decode document: " ++ f.message
    file }

def inaccessible (file reason : String) : Finding :=
  { rule := ErrorKind.input.name
    severity := .error
    message := "cannot access file: " ++ reason
    file }

def Document.elementCounts (d : Document) : List (String × Nat) :=
  [("profile", d.profiles.length), ("class", d.classes.length),
   ("enumeration", d.enumerations.length), ("association", d.associations.length),
   ("function", d.functions.length), ("measure", d.measures.length),
   ("mapping", d.mappings.length), ("connection", d.connections.length),
   ("runtime", d.runtimes.length), ("extension", d.extensions.length)]

def checkBuild (file : String) (d : Document) (o : Options) (r : Report) : CheckResult :=
  let outcome := d.build o
  let passes := outcome.finished.map (·.1)
  match outcome.result with
  | .error f =>
    { report := r.add (f.finding file)
      observed := some { passes, ended := .of (.error f) } }
  | .ok m =>
    { report := r.addAll (m.warnings.map fun w => { w with file })
      model := some m
      observed := some
        { passes, ended := .success, elements := d.elementCounts,
          warnings := m.warnings.length } }

/-- Checks a document. `file` names it in the report, and `session` is the name of a
build. -/
def checkDocument (file session text : String) (o : CheckOptions) : CheckResult :=
  let errors := Schema.sorted (Schema.errors text)
  let r : Report := { file, schemaValid := errors.isEmpty }
  let r := r.addAll (errors.map fun e => e.finding file)
  if !r.schemaValid || o.schemaOnly then { report := r }
  else match Document.read text with
    | .error fault => { report := r.add (fault.finding file) }
    | .ok d => checkBuild file d o.build { r with session, elements := d.elementCount }

end ModelGraph
