/-
# Settings

Settings say how models are built, what is logged and where statistics go. They start
from defaults, and files put over them change what they mention.
-/
import ModelGraph.Options
import ModelGraph.Settings.Written

namespace ModelGraph

structure Settings where
  strict : Bool := false
  cycles : Bool := true
  roots : Bool := true
  extensions : List String := ["relational"]
  level : String := "warn"
  format : String := "text"
  metricsFile : String := ""
  deriving Repr, BEq, DecidableEq, Inhabited

namespace Settings

def levels : List String := ["debug", "info", "warn", "error", "silent"]

def formats : List String := ["text", "json"]

def faults (s : Settings) : List String :=
  (if levels.contains s.level then []
    else ["logging.level must be one of [" ++ " ".intercalate levels ++ "], got " ++
      quoted s.level]) ++
  (if formats.contains s.format then []
    else ["logging.format must be " ++ " or ".intercalate (formats.map quoted) ++ ", got " ++
      quoted s.format]) ++
  (s.extensions.filter fun e => (Extension.ofName? e).isNone).map fun e =>
    "compiler.extensions: " ++ Extension.unknown e

def validate (s : Settings) : Except String Settings :=
  match s.faults with
  | [] => .ok s
  | fs => .error ("\n".intercalate fs)

def options (s : Settings) : Except String Options :=
  (Extension.ofNames s.extensions).map fun extensions =>
    { strict := s.strict, cycles := s.cycles, roots := s.roots, extensions }

def renderTruth (b : Bool) : String := if b then "true" else "false"

def renderExtensions : List String → String
  | [] => "    extensions: []\n"
  | es =>
    "    extensions:\n" ++ String.join (es.map fun e => "        - " ++ Scalar.written 10 e)

def render (s : Settings) : String :=
  "compiler:\n" ++
    "    strictFunctionMatching: " ++ renderTruth s.strict ++ "\n" ++
    "    rejectGeneralizationCycles: " ++ renderTruth s.cycles ++ "\n" ++
    "    validateMappingRoots: " ++ renderTruth s.roots ++ "\n" ++
    renderExtensions s.extensions ++
    "logging:\n" ++
    "    level: " ++ Scalar.written 8 s.level ++
    "    format: " ++ Scalar.written 8 s.format ++
    "metrics:\n" ++
    "    file: " ++ Scalar.written 8 s.metricsFile

end Settings
end ModelGraph
