/-
# Declarations of the domain

Profiles, sections, classes, enumerations, associations, functions and measures
as a document declares them.
-/
import ModelGraph.Document.Node

namespace ModelGraph

open Decode (Decoded Slot)

structure ProfileValue where
  value : String := ""
  span : Span := {}
  deriving Repr, BEq, DecidableEq, Inhabited

namespace ProfileValue

def fields : List (Slot ProfileValue) :=
  [.text "value" fun v p => { p with value := v },
   Span.field "sourceInformation" fun v p => { p with span := v }]

def decoder : Decoder ProfileValue := .textOr (fun value => { value }) (.record fields {})

end ProfileValue

structure ProfileDecl where
  header : Header := {}
  stereotypes : List ProfileValue := []
  tags : List ProfileValue := []
  deriving Repr, BEq, DecidableEq, Inhabited

def ProfileDecl.fields : List (Slot ProfileDecl) :=
  Header.fields (·.header) (fun v p => { p with header := v }) ++
  [.list "stereotypes" ProfileValue.decoder fun v p => { p with stereotypes := v },
   .list "tags" ProfileValue.decoder fun v p => { p with tags := v }]

def ProfileDecl.decoder : Decoder ProfileDecl := .record ProfileDecl.fields {}

/-- A section of a source text: its elements and what it imports. -/
structure SectionDecl where
  tag : String := ""
  parserName : String := ""
  elements : List String := []
  imports : List String := []
  span : Span := {}
  deriving Repr, BEq, DecidableEq, Inhabited

def SectionDecl.fields : List (Slot SectionDecl) :=
  [.text "_type" fun v s => { s with tag := v },
   .text "parserName" fun v s => { s with parserName := v },
   .list "elements" .text fun v s => { s with elements := v },
   .list "imports" .text fun v s => { s with imports := v },
   Span.field "sourceInformation" fun v s => { s with span := v }]

def SectionDecl.decoder : Decoder SectionDecl := .record SectionDecl.fields {}

structure SectionIndexDecl where
  header : Header := {}
  sections : List SectionDecl := []
  deriving Repr, BEq, DecidableEq, Inhabited

def SectionIndexDecl.fields : List (Slot SectionIndexDecl) :=
  Header.fields (·.header) (fun v s => { s with header := v }) ++
  [.list "sections" SectionDecl.decoder
    fun v s => { s with sections := v }]

def SectionIndexDecl.decoder : Decoder SectionIndexDecl := .record SectionIndexDecl.fields {}

structure DefaultDecl where
  value : Node := .empty
  span : Span := {}
  deriving Repr, BEq, Inhabited

def DefaultDecl.fields : List (Slot DefaultDecl) :=
  [.field "value" Node.decoder fun v d => { d with value := v },
   Span.field "sourceInformation" fun v d => { d with span := v }]

def DefaultDecl.decoder : Decoder DefaultDecl := .record DefaultDecl.fields {}

structure PropertyDecl where
  annotations : AnnotationDecls := {}
  name : String := ""
  typeName : String := ""
  typeExpr : Option TypeExpr := none
  bounds : Bounds := {}
  default : Option DefaultDecl := none
  aggregation : String := ""
  namedSpan : Span := {}
  span : Span := {}
  deriving Repr, BEq, Inhabited

namespace PropertyDecl

def typePath (p : PropertyDecl) : String := TypeExpr.pathOr p.typeExpr p.typeName

def typeSpan (p : PropertyDecl) : Span :=
  match p.typeExpr with
  | some t => t.raw.span.orElse (p.namedSpan.orElse p.span)
  | none => p.namedSpan.orElse p.span

def fields : List (Slot PropertyDecl) :=
  AnnotationDecls.fields (·.annotations) (fun v p => { p with annotations := v }) ++
  [.text "name" fun v p => { p with name := v },
   .text "type" fun v p => { p with typeName := v },
   .optional "genericType" TypeExpr.decoder fun v p => { p with typeExpr := v },
   .field "multiplicity" Bounds.decoder fun v p => { p with bounds := v },
   .optional "defaultValue" DefaultDecl.decoder
     fun v p => { p with default := v },
   .text "aggregation" fun v p => { p with aggregation := v },
   Span.field "propertyTypeSourceInformation" fun v p => { p with namedSpan := v },
   Span.field "sourceInformation" fun v p => { p with span := v }]

def decoder : Decoder PropertyDecl := .record fields {}

end PropertyDecl

structure QualifiedDecl where
  annotations : AnnotationDecls := {}
  name : String := ""
  parameters : List Node := []
  returnName : String := ""
  returnExpr : Option TypeExpr := none
  bounds : Bounds := {}
  body : List Node := []
  span : Span := {}
  deriving Repr, BEq, Inhabited

namespace QualifiedDecl

def returnPath (q : QualifiedDecl) : String := TypeExpr.pathOr q.returnExpr q.returnName

def fields : List (Slot QualifiedDecl) :=
  AnnotationDecls.fields (·.annotations) (fun v q => { q with annotations := v }) ++
  [.text "name" fun v q => { q with name := v },
   .list "parameters" Node.decoder fun v q => { q with parameters := v },
   .text "returnType" fun v q => { q with returnName := v },
   .optional "returnGenericType" TypeExpr.decoder fun v q => { q with returnExpr := v },
   .field "returnMultiplicity" Bounds.decoder fun v q => { q with bounds := v },
   .list "body" Node.decoder fun v q => { q with body := v },
   Span.field "sourceInformation" fun v q => { q with span := v }]

def decoder : Decoder QualifiedDecl := .record fields {}

end QualifiedDecl

/-- A constraint: a condition and, maybe, the message to give. -/
structure ConstraintDecl where
  name : String := ""
  condition : Node := .empty
  message : Option Node := none
  externalId : String := ""
  level : String := ""
  span : Span := {}
  deriving Repr, BEq, Inhabited

namespace ConstraintDecl

def fields : List (Slot ConstraintDecl) :=
  [.text "name" fun v c => { c with name := v },
   .field "functionDefinition" Node.decoder fun v c => { c with condition := v },
   .optional "messageFunction" Node.decoder fun v c => { c with message := v },
   .text "externalId" fun v c => { c with externalId := v },
   .text "enforcementLevel" fun v c => { c with level := v },
   Span.field "sourceInformation" fun v c => { c with span := v }]

def decoder : Decoder ConstraintDecl := .record fields {}

end ConstraintDecl

structure ClassDecl where
  header : Header := {}
  annotations : AnnotationDecls := {}
  superTypes : List Pointer := []
  properties : List PropertyDecl := []
  qualified : List QualifiedDecl := []
  constraints : List ConstraintDecl := []
  originals : List PropertyDecl := []
  deriving Repr, BEq, Inhabited

def ClassDecl.fields : List (Slot ClassDecl) :=
  Header.fields (·.header) (fun v c => { c with header := v }) ++
  AnnotationDecls.fields (·.annotations) (fun v c => { c with annotations := v }) ++
  [.list "superTypes" Pointer.decoder fun v c => { c with superTypes := v },
   .list "properties" PropertyDecl.decoder fun v c => { c with properties := v },
   .list "qualifiedProperties" QualifiedDecl.decoder fun v c => { c with qualified := v },
   .list "constraints" ConstraintDecl.decoder fun v c => { c with constraints := v },
   .list "originalMilestonedProperties" PropertyDecl.decoder fun v c => { c with originals := v }]

def ClassDecl.decoder : Decoder ClassDecl := .record ClassDecl.fields {}

structure EnumValueDecl where
  annotations : AnnotationDecls := {}
  value : String := ""
  span : Span := {}
  deriving Repr, BEq, DecidableEq, Inhabited

def EnumValueDecl.fields : List (Slot EnumValueDecl) :=
  AnnotationDecls.fields (·.annotations) (fun v e => { e with annotations := v }) ++
  [.text "value" fun v e => { e with value := v },
   Span.field "sourceInformation" fun v e => { e with span := v }]

def EnumValueDecl.decoder : Decoder EnumValueDecl := .record EnumValueDecl.fields {}

structure EnumerationDecl where
  header : Header := {}
  annotations : AnnotationDecls := {}
  values : List EnumValueDecl := []
  deriving Repr, BEq, DecidableEq, Inhabited

def EnumerationDecl.fields : List (Slot EnumerationDecl) :=
  Header.fields (·.header) (fun v e => { e with header := v }) ++
  AnnotationDecls.fields (·.annotations) (fun v e => { e with annotations := v }) ++
  [.list "values" EnumValueDecl.decoder
    fun v e => { e with values := v }]

def EnumerationDecl.decoder : Decoder EnumerationDecl := .record EnumerationDecl.fields {}

structure AssociationDecl where
  header : Header := {}
  annotations : AnnotationDecls := {}
  properties : List PropertyDecl := []
  qualified : List QualifiedDecl := []
  originals : List PropertyDecl := []
  deriving Repr, BEq, Inhabited

def AssociationDecl.fields : List (Slot AssociationDecl) :=
  Header.fields (·.header) (fun v a => { a with header := v }) ++
  AnnotationDecls.fields (·.annotations) (fun v a => { a with annotations := v }) ++
  [.list "properties" PropertyDecl.decoder fun v a => { a with properties := v },
   .list "qualifiedProperties" QualifiedDecl.decoder fun v a => { a with qualified := v },
   .list "originalMilestonedProperties" PropertyDecl.decoder fun v a => { a with originals := v }]

def AssociationDecl.decoder : Decoder AssociationDecl := .record AssociationDecl.fields {}

structure FormatData where
  contentType : String := ""
  data : String := ""
  deriving Repr, BEq, DecidableEq, Inhabited

namespace FormatData

def fields : List (Slot FormatData) :=
  [.text "contentType" fun v d => { d with contentType := v },
   .text "data" fun v d => { d with data := v }]

def decoder : Decoder FormatData := .record fields {}

end FormatData

structure TestParameterDecl where
  tag : String := ""
  name : String := ""
  value : Option Node := none
  data : Option FormatData := none
  deriving Repr, BEq, Inhabited

def TestParameterDecl.fields : List (Slot TestParameterDecl) :=
  [.text "_type" fun v p => { p with tag := v },
   .text "name" fun v p => { p with name := v },
   .optional "value" Node.decoder fun v p => { p with value := v },
   .optional "externalFormatData" FormatData.decoder fun v p => { p with data := v }]

def TestParameterDecl.decoder : Decoder TestParameterDecl := .record TestParameterDecl.fields {}

structure AssertionDecl where
  tag : String := ""
  id : String := ""
  expected : Option Json := none
  deriving Repr, BEq, Inhabited

def AssertionDecl.fields : List (Slot AssertionDecl) :=
  [.text "_type" fun v a => { a with tag := v },
   .text "id" fun v a => { a with id := v },
   .raw "expected" fun v a => { a with expected := some v }]

def AssertionDecl.decoder : Decoder AssertionDecl := .record AssertionDecl.fields {}

structure FunctionTestDecl where
  id : String := ""
  parameters : List TestParameterDecl := []
  assertions : List AssertionDecl := []
  span : Span := {}
  deriving Repr, BEq, Inhabited

def FunctionTestDecl.fields : List (Slot FunctionTestDecl) :=
  [.text "id" fun v t => { t with id := v },
   .list "parameters" TestParameterDecl.decoder
     fun v t => { t with parameters := v },
   .list "assertions" AssertionDecl.decoder
     fun v t => { t with assertions := v },
   Span.field "sourceInformation" fun v t => { t with span := v }]

def FunctionTestDecl.decoder : Decoder FunctionTestDecl := .record FunctionTestDecl.fields {}

structure FunctionDecl where
  header : Header := {}
  annotations : AnnotationDecls := {}
  parameters : List Node := []
  returnName : String := ""
  returnExpr : Option TypeExpr := none
  bounds : Bounds := {}
  body : List Node := []
  preConstraints : List ConstraintDecl := []
  postConstraints : List ConstraintDecl := []
  tests : List FunctionTestDecl := []
  deriving Repr, BEq, Inhabited

namespace FunctionDecl

def returnPath (f : FunctionDecl) : String := TypeExpr.pathOr f.returnExpr f.returnName

def fields : List (Slot FunctionDecl) :=
  Header.fields (·.header) (fun v f => { f with header := v }) ++
  AnnotationDecls.fields (·.annotations) (fun v f => { f with annotations := v }) ++
  [.list "parameters" Node.decoder fun v f => { f with parameters := v },
   .text "returnType" fun v f => { f with returnName := v },
   .optional "returnGenericType" TypeExpr.decoder fun v f => { f with returnExpr := v },
   .field "returnMultiplicity" Bounds.decoder fun v f => { f with bounds := v },
   .list "body" Node.decoder fun v f => { f with body := v },
   .list "preConstraints" ConstraintDecl.decoder fun v f => { f with preConstraints := v },
   .list "postConstraints" ConstraintDecl.decoder fun v f => { f with postConstraints := v },
   .list "tests" FunctionTestDecl.decoder
     fun v f => { f with tests := v }]

def decoder : Decoder FunctionDecl := .record fields {}

end FunctionDecl

structure UnitDecl where
  header : Header := {}
  measure : String := ""
  conversion : Option Node := none
  deriving Repr, BEq, Inhabited

namespace UnitDecl

def fields : List (Slot UnitDecl) :=
  Header.fields (·.header) (fun v u => { u with header := v }) ++
  [.text "measure" fun v u => { u with measure := v },
   .optional "conversionFunction" Node.decoder fun v u => { u with conversion := v }]

def decoder : Decoder UnitDecl := .record fields {}

end UnitDecl

structure MeasureDecl where
  header : Header := {}
  canonical : Option UnitDecl := none
  nonCanonical : List UnitDecl := []
  deriving Repr, BEq, Inhabited

def MeasureDecl.fields : List (Slot MeasureDecl) :=
  Header.fields (·.header) (fun v m => { m with header := v }) ++
  [.optional "canonicalUnit" UnitDecl.decoder fun v m => { m with canonical := v },
   .list "nonCanonicalUnits" UnitDecl.decoder fun v m => { m with nonCanonical := v }]

def MeasureDecl.decoder : Decoder MeasureDecl := .record MeasureDecl.fields {}

end ModelGraph
