/-
# Reports

A report lists the findings of a check by severity and counts them. Anything
that is no warning counts as an error.
-/
import ModelGraph.Failure
import ModelGraph.Json.Indent

namespace ModelGraph

/-- How severe a finding is, by number where there is no name. -/
inductive Severity where
  | error | warning
  | other (number : Int)
  deriving Repr, BEq, DecidableEq, Inhabited

namespace Severity

def ofInt (n : Int) : Severity := if n = 0 then error else if n = 1 then warning else other n

def name : Severity → String
  | error => "error"
  | warning => "warning"
  | other n => s!"severity({n})"

def ofName? (s : String) : Option Severity :=
  if s = "error" then some error else if s = "warning" then some warning else none

def number : Severity → Int
  | error => 0
  | warning => 1
  | other n => n

def unknownName (s : String) : String := "unknown severity " ++ quoted s

end Severity

/-- One thing found: the rule, how severe it is, and where. -/
structure Finding where
  rule : String
  severity : Severity
  message : String
  file : String := ""
  path : String := ""
  span : Span := {}
  deriving Repr, BEq, DecidableEq, Inhabited

def Failure.finding? (f : Failure) (file path : String) : Option Finding :=
  match f with
  | .diagnosed kind problem span _ =>
    some { rule := kind.name, severity := .error, message := problem.message, file, path, span }
  | _ => none

structure Summary where
  errors : Nat := 0
  warnings : Nat := 0
  elements : Int := 0
  deriving Repr, BEq, DecidableEq, Inhabited

structure Report where
  file : String := ""
  session : String := ""
  schemaValid : Bool := false
  errors : List Finding := []
  warnings : List Finding := []
  elements : Int := 0
  deriving Repr, BEq, Inhabited

namespace Report

def add (r : Report) (f : Finding) : Report :=
  if f.severity = .warning then { r with warnings := r.warnings ++ [f] }
  else { r with errors := r.errors ++ [f] }

def addAll (r : Report) (fs : List Finding) : Report := fs.foldl add r

def summary (r : Report) : Summary :=
  { errors := r.errors.length, warnings := r.warnings.length, elements := r.elements }

def line (f : Finding) : String :=
  let place :=
    if f.span.isKnown then
      if f.path = "" then f.span.render else f.path ++ " " ++ f.span.render
    else f.path
  "  [" ++ f.rule ++ "] " ++ f.severity.name ++ ": " ++ f.message ++
    (if place = "" then "" else " at " ++ place) ++ "\n"

def text (r : Report) : String :=
  "File: " ++ r.file ++ "\n" ++ String.join (r.errors.map line) ++
    String.join (r.warnings.map line) ++
    s!"\n{r.elements} elements, {r.errors.length} errors, {r.warnings.length} warnings\n"

def findingJson (f : Finding) : Json :=
  .ofObject
    [("rule", .ofString f.rule), ("severity", .ofString f.severity.name),
     ("message", .ofString f.message),
     ("location", .ofObject
       ([("file", .ofString f.file)] ++
         (if f.path = "" then [] else [("path", .ofString f.path)]) ++
         [("source", f.span.encode)]))]

def Summary.json (s : Summary) : Json :=
  .ofObject [("error_count", .ofNat s.errors), ("warning_count", .ofNat s.warnings),
    ("element_count", .ofInt s.elements)]

def toJson (r : Report) : Json :=
  .ofObject
    ([("file", .ofString r.file)] ++
      (if r.session = "" then [] else [("session", .ofString r.session)]) ++
      [("schema_valid", .bool r.schemaValid),
       ("errors", .ofArray (r.errors.map findingJson)),
       ("warnings", .ofArray (r.warnings.map findingJson)),
       ("summary", Summary.json r.summary)])

def json (r : Report) : String := r.toJson.indented

end Report
end ModelGraph
