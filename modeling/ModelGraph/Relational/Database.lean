/-
# Databases

A database has schemas of tables, and includes other databases whose tables it can
refer to. Schema, table and column names are distinct where they stand.
-/
import ModelGraph.Build.Monad
import ModelGraph.Document
import ModelGraph.Text.Upper

namespace ModelGraph

open Decode (Decoded Slot)

def Element.isDatabase (e : Element) : Bool :=
  match e.content with
  | .database _ => true
  | _ => false

def Model.database? (m : Model) (path : String) : Option Database :=
  match m.declared? path with
  | some { content := .database d, .. } => some d
  | _ => none

def Model.databaseIncludes (m : Model) (path : String) : List String :=
  match m.database? path with
  | some d => d.includes
  | none => []

def Model.ownTable? (m : Model) (schema table path : String) : Option TableRef :=
  (m.database? path).bind fun d =>
    d.schemas.findSome? fun s =>
      if s.name = schema then
        (s.tables.find? fun t => t.name = table).map fun t =>
          { database := path, schema := s.name, table := t }
      else none

def defaultSchema : String := "default"

def schemaOr (schema : String) : String := if schema = "" then defaultSchema else schema

/-- A table that a database can refer to: its own, or one of an included database. -/
def Model.table? (m : Model) (path schema table : String) : Option TableRef :=
  (Search.preorder m.databaseIncludes (m.elements.length + 1) path).findSome?
    (m.ownTable? (schemaOr schema) table)

structure ColumnDecl where
  name : String := ""
  type : String := ""
  nullable : Bool := false

namespace ColumnDecl

def fields : List (Slot ColumnDecl) :=
  [.text "name" fun v c => { c with name := v },
   .field "type" .tag fun v c => { c with type := v },
   .boolean "nullable" fun v c => { c with nullable := v }]

def decoder : Decoder ColumnDecl := .record fields {}

end ColumnDecl

structure TableDecl where
  name : String := ""
  columns : List ColumnDecl := []
  primaryKey : List String := []
  span : Span := {}

def TableDecl.fields : List (Slot TableDecl) :=
  [.text "name" fun v t => { t with name := v },
   .list "columns" ColumnDecl.decoder
     fun v t => { t with columns := v },
   .list "primaryKey" .text fun v t => { t with primaryKey := v },
   Span.field "sourceInformation" fun v t => { t with span := v }]

def TableDecl.decoder : Decoder TableDecl := .record TableDecl.fields {}

structure SchemaDecl where
  name : String := ""
  tables : List TableDecl := []

def SchemaDecl.fields : List (Slot SchemaDecl) :=
  [.text "name" fun v s => { s with name := v },
   .list "tables" TableDecl.decoder
     fun v s => { s with tables := v }]

def SchemaDecl.decoder : Decoder SchemaDecl := .record SchemaDecl.fields {}

structure DatabaseDecl where
  includes : List Pointer := []
  schemas : List SchemaDecl := []

def DatabaseDecl.fields : List (Slot DatabaseDecl) :=
  [.list "includedStores" Pointer.decoder fun v d => { d with includes := v },
   .list "schemas" SchemaDecl.decoder
     fun v d => { d with schemas := v }]

def DatabaseDecl.decoder : Decoder DatabaseDecl := .record DatabaseDecl.fields {}

namespace Relational

def elementTag : String := "relational"

def buildColumns (table : String) (span : Span) : List ColumnDecl → List Column →
    Result (List Column)
  | [], done => .ok done
  | c :: cs, done =>
    if done.any fun d => d.name = c.name then failAt span (.duplicateColumn c.name table)
    else buildColumns table span cs
      (done ++ [{ name := c.name, type := upperText c.type, nullable := c.nullable }])

/-- A table. The columns of its primary key always have a value. -/
def buildTable (d : TableDecl) (schema : String) (done : List Table) (outer : Span) :
    Result Table := do
  let span := d.span.orElse outer
  if done.any fun t => t.name = d.name then failAt span (.duplicateTable d.name schema)
  let columns ← buildColumns d.name span d.columns []
  match d.primaryKey.find? fun k => !columns.any fun c => c.name = k with
  | some k => failAt span (.primaryKeyColumn k d.name)
  | none =>
    let columns := columns.map fun c =>
      if d.primaryKey.contains c.name then { c with nullable := false } else c
    return { name := d.name, columns, primaryKey := d.primaryKey, span }

def buildTables (schema : String) (outer : Span) : List TableDecl → List Table →
    Result (List Table)
  | [], done => .ok done
  | d :: ds, done => do
    let t ← buildTable d schema done outer
    buildTables schema outer ds (done ++ [t])

def buildSchemas (database : String) (outer : Span) : List SchemaDecl → List TableSchema →
    Result (List TableSchema)
  | [], done => .ok done
  | d :: ds, done => do
    if done.any fun s => s.name = d.name then failAt outer (.duplicateSchema d.name database)
    let tables ← buildTables d.name outer d.tables []
    buildSchemas database outer ds (done ++ [{ name := d.name, tables }])

def resolveInclude (c : Context) (database : String) (outer : Span) (p : Pointer) :
    Result String := do
  let span := p.span.orElse outer
  let store ← c.resolve .store p.path span
  if !store.isDatabase then failAt span (.includedNotDatabase store.path database)
  return store.path

def declare (d : ExtensionDecl) : Build Unit := Build.register d.header (.database {})

def build (d : ExtensionDecl) : Build Unit := do
  let path := d.header.path
  let c ← Build.context path
  match DatabaseDecl.decoder.decode d.raw with
  | .error fault => Build.fail d.header.span (.databaseUnreadable path fault)
  | .ok decl =>
    let includes ← (decl.includes.mapM (resolveInclude c path d.header.span) : Result _)
    let schemas ← buildSchemas path d.header.span decl.schemas []
    modify fun m => m.setContent path (.database { includes, schemas })

/-- Fails if a database includes itself through others. The first by path is named with
the way back to it. -/
def checkIncludes : Build Unit := fun m =>
  let databases := (m.elements.filter fun e => (m.database? e.path).isSome).mergeSort
    fun a b => a.path ≤ b.path
  let cycle := databases.findSome? fun e =>
    (Search.walkBack? m.databaseIncludes (m.elements.length + 1) e.path).map fun walk => (e, walk)
  match cycle with
  | some (e, walk) => failAt e.span (.databaseCycle walk)
  | none => .ok ((), m)

end Relational
end ModelGraph
