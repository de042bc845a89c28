/-
# Source values of enumeration mappings

The values that an enumeration value stands for come in several forms: objects with a
tag each; one object whose tag says how to read a list; plain values, read as the
mapping's source type says; or plain values as they are. Objects with tags do not mix
with other forms in one mapping.
-/
import ModelGraph.Document.Mapping
import ModelGraph.Expression.Literal
import ModelGraph.Names
import ModelGraph.Text.Upper

namespace ModelGraph

open Decode (Decoded Slot)

structure StructuredSource where
  tag : String := ""
  enumeration : String := ""
  value : Option Json := none

def StructuredSource.fields : List (Slot StructuredSource) :=
  [.text "_type" fun v s => { s with tag := v },
   .text "enumeration" fun v s => { s with enumeration := v },
   .raw "value" fun v s => { s with value := some v }]

def StructuredSource.decoder : Decoder StructuredSource := .record StructuredSource.fields {}

structure FlaggedSource where
  tag : String := ""
  values : List Json := []
  path : String := ""
  value : String := ""

def FlaggedSource.fields : List (Slot FlaggedSource) :=
  [.text "_type" fun v s => { s with tag := v },
   .list "values" .raw fun v s => { s with values := v },
   .text "fullPath" fun v s => { s with path := v },
   .text "value" fun v s => { s with value := v }]

def FlaggedSource.decoder : Decoder FlaggedSource := .record FlaggedSource.fields {}

namespace SourceValue

def integerTag : String := "integerSourceValue"

def stringTag : String := "stringSourceValue"

def enumTag : String := "enumSourceValue"

def isObject : Json → Bool
  | .object .. => true
  | _ => false

def structured? (j : Json) : Option StructuredSource :=
  if !isObject j then none
  else match StructuredSource.decoder.decode j with
    | .ok s => if [integerTag, stringTag, enumTag].contains s.tag then some s else none
    | .error _ => none

def isStructured (j : Json) : Bool := (structured? j).isSome

def readInteger (span : Span) (j : Option Json) : Result SourceValue :=
  match j.map Decoder.integer.decode with
  | some (.ok n) => .ok (.integer n)
  | some (.error fault) => failAt span (.integerSource fault)
  | none => failAt span (.integerSource .mismatch)

def readText (span : Span) (problem : Decode.Fault → Problem) (j : Option Json) : Result String :=
  match j.map Decoder.text.decode with
  | some (.ok s) => .ok s
  | some (.error fault) => failAt span (problem fault)
  | none => failAt span (problem .mismatch)

def readEnum (c : Context) (span : Span) (path name : String) : Result SourceValue := do
  let (enumeration, v) ← c.resolveEnumValue path name span span
  return .enumValue enumeration v.name

def readStructured (c : Context) (span : Span) (s : StructuredSource) : Result SourceValue := do
  if s.tag = integerTag then readInteger span s.value
  else if s.tag = stringTag then
    return .text (← readText span .stringSource s.value)
  else
    let name ← readText span .enumSource s.value
    readEnum c span s.enumeration name

/-- Source values under one tag; a collection puts together what its members give.
`depth` bounds the nesting of collections. -/
def readFlagged (c : Context) (span : Span) : (depth : Nat) → FlaggedSource →
    Result (List SourceValue)
  | 0, s => .error (.unsupported (.enumSourceType s.tag))
  | depth + 1, s =>
    if s.tag = "string" then s.values.mapM fun j => do
      return .text (← readText span .stringSource (some j))
    else if s.tag = "integer" then s.values.mapM fun j => readInteger span (some j)
    else if s.tag = "enumValue" then do return [← readEnum c span s.path s.value]
    else if s.tag = "collection" then do
      let parts ← s.values.mapM fun j =>
        match FlaggedSource.decoder.decode j with
        | .error fault => failAt span (.sourceUnreadable fault.message)
        | .ok member => readFlagged c span depth member
      return parts.flatten
    else .error (.unsupported (.enumSourceType s.tag))

def outOfRange (text : String) : String :=
  "strconv.ParseFloat: parsing " ++ quoted text ++ ": value out of range"

/-- A plain source value. A number is an integer if it is written as one that fits a
64-bit word, else a floating point number. -/
def readPlain (span : Span) (j : Json) : Result SourceValue :=
  match j with
  | .number literal =>
    match Number.word? literal, Number.double? literal with
    | some n, _ => .ok (.integer n)
    | none, some bits => .ok (.float bits)
    | none, none => failAt span (.sourceUnreadable (outOfRange literal))
  | .string _ s => .ok (.text s)
  | j => .ok (.other j)

/-- A plain source value, read as a type says: a text, an integer, or a value of the
enumeration of that name. -/
def readAs (c : Context) (span : Span) (type : String) (j : Json) : Result SourceValue := do
  let v ← readPlain span j
  let kind := upperText type
  if kind = "STRING" then return v
  else if kind = "INTEGER" then
    match v with
    | .text s =>
      match Number.word? s with
      | some n => return .integer n
      | none => failAt span (.notAnInteger s)
    | v => return v
  else
    match v with
    | .text s => readEnum c span type s
    | _ => failAt span (.sourceNotEnum type)

def readAll (c : Context) (span : Span) (type : String) (values : List Json) :
    Result (List SourceValue) :=
  let plain := if type = "" then values.mapM (readPlain span)
    else values.mapM (readAs c span type)
  match values with
  | [] => .ok []
  | j :: rest =>
    if values.all isStructured then
      (values.filterMap structured?).mapM (readStructured c span)
    else if rest.isEmpty && isObject j then
      match FlaggedSource.decoder.decode j with
      | .error fault => failAt span (.sourceUnreadable fault.message)
      | .ok s => readFlagged c span (j.depth + 1) s
    else plain

def typeRef? : SourceValue → Option TypeRef
  | .text _ => some Library.string
  | .integer _ => some Library.integer
  | .enumValue path _ =>
    some { kind := .enumeration, path, name := Path.lastSegment path }
  | .float _ | .other _ => none

end SourceValue

namespace EnumerationMappingDecl

/-- The name of an enumeration mapping: its id, or one made from the path of the
enumeration. -/
def nameOf (d : EnumerationMappingDecl) : String :=
  if d.id = "" then Path.underscored d.enumeration.path else d.id

def allSources (d : EnumerationMappingDecl) : List Json := d.values.flatMap (·.sources)

def build (d : EnumerationMappingDecl) (c : Context) : Result EnumerationMapping := do
  let tagged := (d.allSources.filter SourceValue.isStructured).length
  if 0 < tagged && tagged < d.allSources.length then failAt d.span .mixedSources
  let e ← c.resolve .enumeration d.enumeration.path (d.enumeration.span.orElse d.span)
  let values ← d.values.mapM fun v => do
    let value ← Context.enumValue e v.enumValue d.span
    let sources ← SourceValue.readAll c d.span d.sourceType v.sources
    return { name := value.name, sources }
  return { name := d.nameOf, enumeration := Context.asType e, parent := c.element, values,
           span := d.span }

def sourceTags (d : EnumerationMappingDecl) : List String :=
  if d.allSources.all SourceValue.isStructured then
    distinct ((d.allSources.filterMap SourceValue.structured?).map (·.tag))
  else []

/-- Fails if source values with tags have different ones. -/
def checkSources (d : EnumerationMappingDecl) : Result Unit :=
  if 1 < d.sourceTags.length then failAt d.span .mixedSourceTypes else .ok ()

end EnumerationMappingDecl
end ModelGraph
