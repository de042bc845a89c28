/-
# Relational class mappings

Instances of a class are read from the rows of a main table, a property from one of
its columns. The type of a column has to fit the type of a primitive property.
-/
import ModelGraph.Relational.Database

namespace ModelGraph

open Decode (Decoded Slot)

structure TablePointer where
  database : String := ""
  schema : String := ""
  table : String := ""
  span : Span := {}

namespace TablePointer

def fields : List (Slot TablePointer) :=
  [.text "database" fun v t => { t with database := v },
   .text "schema" fun v t => { t with schema := v },
   .text "table" fun v t => { t with table := v },
   Span.field "sourceInformation" fun v t => { t with span := v }]

def decoder : Decoder TablePointer := .record fields {}

end TablePointer

structure RelationalSetDecl where
  mainTable : Option TablePointer := none
  isDistinct : Bool := false

def RelationalSetDecl.fields : List (Slot RelationalSetDecl) :=
  [.optional "mainTable" TablePointer.decoder fun v s => { s with mainTable := v },
   .boolean "distinct" fun v s => { s with isDistinct := v }]

def RelationalSetDecl.decoder : Decoder RelationalSetDecl := .record RelationalSetDecl.fields {}

structure RelationalOperationDecl where
  tag : String := ""
  table : TablePointer := {}
  column : String := ""

namespace RelationalOperationDecl

def fields : List (Slot RelationalOperationDecl) :=
  [.text "_type" fun v o => { o with tag := v },
   .field "table" TablePointer.decoder fun v o => { o with table := v },
   .text "column" fun v o => { o with column := v }]

def decoder : Decoder RelationalOperationDecl :=
  .record [.field "relationalOperation" (.record fields {}) fun v _ => v] {}

end RelationalOperationDecl

namespace Relational

def setTag : String := "relational"

def propertyTag : String := "relationalPropertyMapping"

def columnTag : String := "column"

def resolveTable (c : Context) (p : TablePointer) (outer : Span) : Result (String × TableRef) := do
  let span := p.span.orElse outer
  let store ← c.resolve .store p.database span
  if !store.isDatabase then failAt span (.storeNotDatabase store.path)
  match c.model.table? store.path p.schema p.table with
  | some t => return (store.path, t)
  | none => failAt span (.unknownTable p.table (schemaOr p.schema) store.path)

/-- A property mapping. `id` is the id that the class mapping states, `database` and
`main` are what it reads from. -/
def buildProperty (c : Context) (id database : String) (main : TableRef) (className : TypeRef)
    (outer : Span) (d : PropertyMappingDecl) : Result PropertyMapping := do
  let span := d.span.orElse outer
  if d.tag != propertyTag then .error (.unsupported (.relationalPropertyMapping d.tag))
  match RelationalOperationDecl.decoder.decode d.raw with
  | .error fault => failAt span (.relationalPropertyUnreadable fault)
  | .ok o =>
    if o.tag != columnTag then .error (.unsupported (.relationalOperation o.tag))
    let t ← c.resolveClass
      (if d.property.className = "" then className.path else d.property.className) span
    let property ← c.model.property t d.property.property span
    let table ← if o.table.table = "" then pure main
      else
        let p := if o.table.database = "" then { o.table with database } else o.table
        (·.2) <$> resolveTable c p span
    match table.table.column? o.column with
    | none => failAt span (.unknownColumn o.column table.table.name)
    | some column =>
      return { property, sourceId := id, targetId := d.target, column := some { table, column },
               span }

def buildSet (c : Context) (a : ClassMappingAttrs) (base : SetBase) : Result SetImplementation := do
  match RelationalSetDecl.decoder.decode a.raw with
  | .error fault => failAt a.span (.relationalSetUnreadable fault)
  | .ok d =>
    match d.mainTable with
    | none => failAt a.span (.noMainTable a.className)
    | some p =>
      let (database, table) ← resolveTable c p a.span
      let properties ← a.properties.mapM
        (buildProperty c a.id database table base.className a.span)
      return .relational { base with properties } database table d.isDistinct

def primitiveOf (columnType : String) : Option String :=
  if ["INTEGER", "BIGINT", "SMALLINT", "TINYINT"].contains columnType then some "Integer"
  else if ["VARCHAR", "CHAR", "SEMISTRUCTURED", "JSON"].contains columnType then some "String"
  else if ["FLOAT", "DOUBLE", "REAL"].contains columnType then some "Float"
  else if ["DECIMAL", "NUMERIC"].contains columnType then some "Decimal"
  else if columnType = "DATE" then some "StrictDate"
  else if columnType = "TIMESTAMP" then some "DateTime"
  else if ["BIT", "BOOLEAN"].contains columnType then some "Boolean"
  else none

/-- Whether a column of a primitive type can be read into a property of another. -/
def compatible (column property : String) : Bool :=
  column = property ||
    (property = "Number" && ["Integer", "Float", "Decimal"].contains column) ||
    (property = "Date" && ["StrictDate", "DateTime"].contains column)

/-- Checks one property mapping: the column is of the main table, and its type fits. -/
def checkProperty (id : String) (main : TableRef) (p : PropertyMapping) : Result Unit :=
  match p.column with
  | none => .ok ()
  | some c =>
    if !c.table.same main then
      failAt p.span (.columnOutsideTable c.column.name p.property.name main.table.name id)
    else match p.property.type.raw, primitiveOf c.column.type with
      | .named t, some found =>
        if t.kind = .primitive && !compatible found t.name then
          failAt p.span (.columnType c.column.name c.column.type p.property.name t.name)
        else .ok ()
      | _, _ => .ok ()

def checkSet (base : SetBase) (main : TableRef) : Result Unit :=
  base.properties.forM (checkProperty base.id main)

end Relational
end ModelGraph
