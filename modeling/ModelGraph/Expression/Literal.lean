/-
# Literals

A literal node holds one JSON value or a list of them. An integer has neither
fraction nor exponent and fits a 64-bit word; a decimal is kept as its text, which
may also stand in a string. A missing value, `null`, is zero, false or empty.
-/
import ModelGraph.Json.Reader
import ModelGraph.Library.Types

namespace ModelGraph
namespace Literal

def typeOf (tag : String) : TypeRef :=
  if tag = Node.stringTag then Library.string
  else if tag = Node.integerTag then Library.integer
  else if tag = Node.floatTag then Library.float
  else if tag = Node.decimalTag then Library.decimal
  else if tag = Node.booleanTag then Library.boolean
  else if tag = Node.dateTimeTag then Library.dateTime
  else if tag = Node.strictDateTag then Library.strictDate
  else Library.latestDate

def isNumber (text : String) : Bool :=
  match Json.read text with
  | some (.number written) => written = text
  | _ => false

def integer? : Json → Option Value
  | .null => some (.integer 0)
  | .number text => (Number.word? text).map .integer
  | _ => none

def float? : Json → Option Value
  | .null => some (.float 0)
  | .number text => (Number.double? text).map .float
  | _ => none

def decimal? : Json → Option Value
  | .null => some (.text "")
  | .number text => some (.text text)
  | .string _ text => if isNumber text then some (.text text) else none
  | _ => none

def boolean? : Json → Option Value
  | .null => some (.boolean false)
  | .bool b => some (.boolean b)
  | _ => none

def text? : Json → Option String
  | .null => some ""
  | .string _ text => some text
  | _ => none

def value? (tag : String) (j : Json) : Option Value :=
  if tag = Node.integerTag then integer? j
  else if tag = Node.floatTag then float? j
  else if tag = Node.decimalTag then decimal? j
  else if tag = Node.booleanTag then boolean? j
  else (text? j).map .text

def values (tag : String) : List Json → Except Json (List Value)
  | [] => .ok []
  | j :: js =>
    match value? tag j with
    | none => .error j
    | some v => (values tag js).map (v :: ·)

/-- A literal node as a constant: as many values as it holds, unless it states a
multiplicity. -/
def compile (a : NodeAttrs) : Result Expr :=
  let written := match a.value with
    | some j => [j]
    | none => a.literals
  match values a.tag written with
  | .error j => failAt a.span (.invalidLiteral a.tag j.text)
  | .ok vs =>
    let multiplicity := match a.bounds with
      | some b => .ofBounds b
      | none => .make vs.length vs.length
    .ok (.instances { type := .ofRef (typeOf a.tag), multiplicity, span := a.span } vs)

end Literal
end ModelGraph
