/-
# Declarations of mappings

A mapping includes other mappings and relates classes, enumerations and
associations to their sources. Class mappings come in several variants, told
apart by a tag; the whole object is kept for the variants of extensions.
-/
import ModelGraph.Document.Node

namespace ModelGraph

open Decode (Decoded Slot)

/-- An include of another mapping, with a store substitution maybe. -/
structure IncludeDecl where
  tag : String := ""
  mapping : String := ""
  package : String := ""
  name : String := ""
  sourceStore : String := ""
  targetStore : String := ""
  span : Span := {}
  deriving Repr, BEq, DecidableEq, Inhabited

namespace IncludeDecl

def path (i : IncludeDecl) : String :=
  if i.mapping = "" then Path.join i.package i.name else i.mapping

def fields : List (Slot IncludeDecl) :=
  [.text "_type" fun v i => { i with tag := v },
   .text "includedMapping" fun v i => { i with mapping := v },
   .text "includedMappingPackage" fun v i => { i with package := v },
   .text "includedMappingName" fun v i => { i with name := v },
   .text "sourceDatabasePath" fun v i => { i with sourceStore := v },
   .text "targetDatabasePath" fun v i => { i with targetStore := v },
   Span.field "sourceInformation" fun v i => { i with span := v }]

def decoder : Decoder IncludeDecl := .record fields {}

end IncludeDecl

structure PropertyRef where
  className : String := ""
  property : String := ""
  span : Span := {}
  deriving Repr, BEq, DecidableEq, Inhabited

def PropertyRef.fields : List (Slot PropertyRef) :=
  [.text "class" fun v p => { p with className := v },
   .text "property" fun v p => { p with property := v },
   Span.field "sourceInformation" fun v p => { p with span := v }]

def PropertyRef.decoder : Decoder PropertyRef := .record PropertyRef.fields {}

structure LocalPropertyDecl where
  typePath : String := ""
  bounds : Bounds := {}
  span : Span := {}
  deriving Repr, BEq, DecidableEq, Inhabited

def LocalPropertyDecl.fields : List (Slot LocalPropertyDecl) :=
  [.text "type" fun v p => { p with typePath := v },
   .field "multiplicity" Bounds.decoder fun v p => { p with bounds := v },
   Span.field "sourceInformation" fun v p => { p with span := v }]

def LocalPropertyDecl.decoder : Decoder LocalPropertyDecl := .record LocalPropertyDecl.fields {}

structure PropertyMappingDecl where
  tag : String := ""
  property : PropertyRef := {}
  source : String := ""
  target : String := ""
  localProperty : Option LocalPropertyDecl := none
  transform : Option Node := none
  explodes : Bool := false
  enumMapping : String := ""
  crossExpression : Option Node := none
  span : Span := {}
  raw : Json := .null
  deriving Repr, BEq, Inhabited

namespace PropertyMappingDecl

def fields : List (Slot PropertyMappingDecl) :=
  [.text "_type" fun v p => { p with tag := v },
   .field "property" PropertyRef.decoder
     fun v p => { p with property := v },
   .text "source" fun v p => { p with source := v },
   .text "target" fun v p => { p with target := v },
   .optional "localMappingProperty" LocalPropertyDecl.decoder
     fun v p => { p with localProperty := v },
   .optional "transform" Node.decoder fun v p => { p with transform := v },
   .boolean "explodeProperty" fun v p => { p with explodes := v },
   .text "enumMappingId" fun v p => { p with enumMapping := v },
   .optional "crossExpression" Node.decoder fun v p => { p with crossExpression := v },
   Span.field "sourceInformation" fun v p => { p with span := v }]

def decoder : Decoder PropertyMappingDecl :=
  .whole (.record fields {}) fun j p => { p with raw := j }

end PropertyMappingDecl

structure GroupByDecl where
  function : Node := .empty
  deriving Repr, BEq, Inhabited

def GroupByDecl.fields : List (Slot GroupByDecl) :=
  [.field "groupByFn" Node.decoder fun v g => { g with function := v }]

def GroupByDecl.decoder : Decoder GroupByDecl := .record GroupByDecl.fields {}

structure AggregateValueDecl where
  mapper : Node := .empty
  aggregator : Node := .empty
  deriving Repr, BEq, Inhabited

def AggregateValueDecl.fields : List (Slot AggregateValueDecl) :=
  [.field "mapFn" Node.decoder fun v a => { a with mapper := v },
   .field "aggregateFn" Node.decoder fun v a => { a with aggregator := v }]

def AggregateValueDecl.decoder : Decoder AggregateValueDecl := .record AggregateValueDecl.fields {}

structure AggregateSpecDecl where
  canAggregate : Bool := false
  groupBy : List GroupByDecl := []
  values : List AggregateValueDecl := []
  deriving Repr, BEq, Inhabited

def AggregateSpecDecl.fields : List (Slot AggregateSpecDecl) :=
  [.boolean "canAggregate" fun v a => { a with canAggregate := v },
   .list "groupByFunctions" GroupByDecl.decoder
     fun v a => { a with groupBy := v },
   .list "aggregateValues" AggregateValueDecl.decoder
     fun v a => { a with values := v }]

def AggregateSpecDecl.decoder : Decoder AggregateSpecDecl := .record AggregateSpecDecl.fields {}

structure AggregateHead where
  index : Int := 0
  spec : AggregateSpecDecl := {}
  deriving Repr, BEq, Inhabited

/-- The attributes of a class mapping, the sets inside it aside. -/
structure ClassMappingAttrs where
  tag : String := ""
  id : String := ""
  className : String := ""
  root : Bool := false
  extendsId : String := ""
  srcClass : String := ""
  filter : Option Node := none
  properties : List PropertyMappingDecl := []
  operation : String := ""
  parameters : List String := []
  validation : Option Node := none
  classSpan : Span := {}
  span : Span := {}
  raw : Json := .null
  deriving Repr, BEq, Inhabited

/-- A mapping of one class. An aggregation-aware mapping holds a main set and
aggregate sets. -/
inductive ClassMappingDecl where
  | mk (attrs : ClassMappingAttrs) (main : Option ClassMappingDecl)
      (aggregates : List (AggregateHead × ClassMappingDecl))
  deriving Repr, Inhabited

namespace ClassMappingDecl

def attrs : ClassMappingDecl → ClassMappingAttrs
  | mk a _ _ => a

def main : ClassMappingDecl → Option ClassMappingDecl
  | mk _ m _ => m

def aggregates : ClassMappingDecl → List (AggregateHead × ClassMappingDecl)
  | mk _ _ as => as

def empty : ClassMappingDecl := .mk {} none []

def withAttrs (f : ClassMappingAttrs → ClassMappingAttrs) : ClassMappingDecl → ClassMappingDecl
  | mk a m as => mk (f a) m as

def aggregateFields (sets : Decoder ClassMappingDecl) :
    List (Slot (AggregateHead × ClassMappingDecl)) :=
  [.integer "index" fun v a => ({ a.1 with index := v }, a.2),
   .field "aggregateSpecification" AggregateSpecDecl.decoder
     fun v a => ({ a.1 with spec := v }, a.2),
   .field "setImplementation" sets fun v a => (a.1, v)]

def fields (sets : Decoder ClassMappingDecl) : List (Slot ClassMappingDecl) :=
  [.text "_type" fun v => withAttrs fun c => { c with tag := v },
   .text "id" fun v => withAttrs fun c => { c with id := v },
   .text "class" fun v => withAttrs fun c => { c with className := v },
   .boolean "root" fun v => withAttrs fun c => { c with root := v },
   .text "extendsClassMappingId" fun v => withAttrs fun c => { c with extendsId := v },
   .text "srcClass" fun v => withAttrs fun c => { c with srcClass := v },
   .optional "filter" Node.decoder fun v => withAttrs fun c => { c with filter := v },
   .list "propertyMappings" PropertyMappingDecl.decoder
     fun v => withAttrs fun c => { c with properties := v },
   .text "operation" fun v => withAttrs fun c => { c with operation := v },
   .list "parameters" .text fun v => withAttrs fun c => { c with parameters := v },
   .optional "validationFunction" Node.decoder
     fun v => withAttrs fun c => { c with validation := v },
   .optional "mainSetImplementation" sets fun v c => mk c.attrs v c.aggregates,
   .list "aggregateSetImplementations" (.record (aggregateFields sets) ({}, empty))
     fun v c => mk c.attrs c.main v,
   Span.field "classSourceInformation" fun v => withAttrs fun c => { c with classSpan := v },
   Span.field "sourceInformation" fun v => withAttrs fun c => { c with span := v }]

def decoderTo : (depth : Nat) → Decoder ClassMappingDecl
  | 0 => .record [] empty
  | depth + 1 =>
    .whole (.record (fields (decoderTo depth)) empty) fun j => withAttrs fun c => { c with raw := j }

def decoder : Decoder ClassMappingDecl := .nested decoderTo

end ClassMappingDecl

structure AssociationMappingDecl where
  tag : String := ""
  id : String := ""
  association : Pointer := {}
  stores : List String := []
  properties : List PropertyMappingDecl := []
  span : Span := {}
  raw : Json := .null
  deriving Repr, BEq, Inhabited

namespace AssociationMappingDecl

def fields : List (Slot AssociationMappingDecl) :=
  [.text "_type" fun v a => { a with tag := v },
   .text "id" fun v a => { a with id := v },
   .field "association" Pointer.decoder fun v a => { a with association := v },
   .list "stores" .text fun v a => { a with stores := v },
   .list "propertyMappings" PropertyMappingDecl.decoder fun v a => { a with properties := v },
   Span.field "sourceInformation" fun v a => { a with span := v }]

def decoder : Decoder AssociationMappingDecl :=
  .whole (.record fields {}) fun j a => { a with raw := j }

end AssociationMappingDecl

structure EnumValueMappingDecl where
  enumValue : String := ""
  sources : List Json := []
  deriving Repr, BEq, Inhabited

def EnumValueMappingDecl.fields : List (Slot EnumValueMappingDecl) :=
  [.text "enumValue" fun v e => { e with enumValue := v },
   .list "sourceValues" .raw fun v e => { e with sources := v }]

def EnumValueMappingDecl.decoder : Decoder EnumValueMappingDecl := .record EnumValueMappingDecl.fields {}

structure EnumerationMappingDecl where
  id : String := ""
  enumeration : Pointer := {}
  sourceType : String := ""
  values : List EnumValueMappingDecl := []
  span : Span := {}
  deriving Repr, BEq, Inhabited

def EnumerationMappingDecl.fields : List (Slot EnumerationMappingDecl) :=
  [.text "id" fun v e => { e with id := v },
   .field "enumeration" Pointer.decoder fun v e => { e with enumeration := v },
   .text "sourceType" fun v e => { e with sourceType := v },
   .list "enumValueMappings" EnumValueMappingDecl.decoder
     fun v e => { e with values := v },
   Span.field "sourceInformation" fun v e => { e with span := v }]

def EnumerationMappingDecl.decoder : Decoder EnumerationMappingDecl := .record EnumerationMappingDecl.fields {}

structure InputDataDecl where
  tag : String := ""
  sourceClass : String := ""
  inputType : String := ""
  data : String := ""
  span : Span := {}
  raw : Json := .null
  deriving Repr, BEq, Inhabited

namespace InputDataDecl

def fields : List (Slot InputDataDecl) :=
  [.text "_type" fun v d => { d with tag := v },
   .text "sourceClass" fun v d => { d with sourceClass := v },
   .text "inputType" fun v d => { d with inputType := v },
   .text "data" fun v d => { d with data := v },
   Span.field "sourceInformation" fun v d => { d with span := v }]

def decoder : Decoder InputDataDecl :=
  .whole (.record fields {}) fun j d => { d with raw := j }

end InputDataDecl

structure MappingTestDecl where
  name : String := ""
  query : Node := .empty
  inputs : List InputDataDecl := []
  assertion : Option Json := none
  deriving Repr, BEq, Inhabited

def MappingTestDecl.fields : List (Slot MappingTestDecl) :=
  [.text "name" fun v t => { t with name := v },
   .field "query" Node.decoder fun v t => { t with query := v },
   .list "inputData" InputDataDecl.decoder fun v t => { t with inputs := v },
   .raw "assert" fun v t => { t with assertion := some v }]

def MappingTestDecl.decoder : Decoder MappingTestDecl := .record MappingTestDecl.fields {}

structure MappingDecl where
  header : Header := {}
  includes : List IncludeDecl := []
  classMappings : List ClassMappingDecl := []
  enumMappings : List EnumerationMappingDecl := []
  assocMappings : List AssociationMappingDecl := []
  tests : List MappingTestDecl := []
  deriving Repr, Inhabited

def MappingDecl.fields : List (Slot MappingDecl) :=
  Header.fields (·.header) (fun v m => { m with header := v }) ++
  [.list "includedMappings" IncludeDecl.decoder
     fun v m => { m with includes := v },
   .list "classMappings" ClassMappingDecl.decoder fun v m => { m with classMappings := v },
   .list "enumerationMappings" EnumerationMappingDecl.decoder
     fun v m => { m with enumMappings := v },
   .list "associationMappings" AssociationMappingDecl.decoder
     fun v m => { m with assocMappings := v },
   .list "tests" MappingTestDecl.decoder
     fun v m => { m with tests := v }]

def MappingDecl.decoder : Decoder MappingDecl := .record MappingDecl.fields {}

end ModelGraph
