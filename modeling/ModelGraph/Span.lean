/-
# Source spans

Where a construct stands in the source text of a model. A span without a
positive start line says that the position is unknown.
-/
import ModelGraph.Json.Decode

namespace ModelGraph

/-- A stretch of source text, by lines and columns. -/
structure Span where
  sourceId : String := ""
  startLine : Int := 0
  startColumn : Int := 0
  endLine : Int := 0
  endColumn : Int := 0
  deriving Repr, BEq, DecidableEq, Inhabited

namespace Span

def unknown : Span := {}

def isKnown (s : Span) : Bool := 0 < s.startLine

def orElse (s other : Span) : Span := if s.isKnown then s else other

/-- `[id:line:col-line:col]`, shorter when the span stays on a line or covers a
single position. -/
def render (s : Span) : String :=
  if !s.isKnown then "[unknown]"
  else
    let id := if s.sourceId = "" then "" else s.sourceId ++ ":"
    let start := id ++ toString s.startLine ++ ":" ++ toString s.startColumn
    if s.startLine = s.endLine then
      if s.startColumn = s.endColumn then "[" ++ start ++ "]"
      else "[" ++ start ++ "-" ++ toString s.endColumn ++ "]"
    else "[" ++ start ++ "-" ++ toString s.endLine ++ ":" ++ toString s.endColumn ++ "]"

def fields : List (Decode.Slot Span) :=
  [.text "sourceId" fun v s => { s with sourceId := v },
   .integer "startLine" fun v s => { s with startLine := v },
   .integer "startColumn" fun v s => { s with startColumn := v },
   .integer "endLine" fun v s => { s with endLine := v },
   .integer "endColumn" fun v s => { s with endColumn := v }]

def decoder : Decoder Span := .record fields {}

def members (s : Span) : List (String × Json) :=
  (if s.sourceId = "" then [] else [("sourceId", .ofString s.sourceId)]) ++
    ([("startLine", s.startLine), ("startColumn", s.startColumn), ("endLine", s.endLine),
      ("endColumn", s.endColumn)].filter fun m => m.2 != 0).map fun m => (m.1, .ofInt m.2)

def encode (s : Span) : Json := .ofObject s.members

end Span
end ModelGraph
