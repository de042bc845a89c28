/-
# Connections to databases

A relational connection reaches a database of a known type and says where its data is.
-/
import ModelGraph.Relational.Database

namespace ModelGraph

open Decode (Slot)

def Datasource.fields : List (Slot Datasource) :=
  [.text "_type" fun v d => { d with tag := v },
   .text "host" fun v d => { d with host := v },
   .integer "port" fun v d => { d with port := v },
   .text "databaseName" fun v d => { d with databaseName := v }]

def Datasource.decoder : Decoder Datasource := .record Datasource.fields {}

structure RelationalConnectionDecl where
  type : String := ""
  datasource : Datasource := {}
  authentication : String := ""

def RelationalConnectionDecl.fields : List (Slot RelationalConnectionDecl) :=
  [.text "type" fun v c => { c with type := v },
   .field "datasourceSpecification" Datasource.decoder
     fun v c => { c with datasource := v },
   .field "authenticationStrategy" .tag fun v c => { c with authentication := v }]

def RelationalConnectionDecl.decoder : Decoder RelationalConnectionDecl := .record RelationalConnectionDecl.fields {}

namespace Relational

def connectionTag : String := "RelationalDatabaseConnection"

def databaseTypes : List String :=
  ["H2", "Postgres", "MemSQL", "SqlServer", "Snowflake", "BigQuery", "Redshift", "Databricks",
   "Spanner", "Trino"]

def buildConnection (c : Context) (d : ConnectionDecl) : Result Connection :=
  match RelationalConnectionDecl.decoder.decode d.raw with
  | .error fault => failAt d.span (.relationalConnectionUnreadable fault)
  | .ok own => do
    let span := d.elementSpan.orElse d.span
    let store ← c.resolve .store d.element span
    if !store.isDatabase then failAt span (.databaseExpected store.path)
    if !databaseTypes.contains own.type then failAt d.span (.unknownDatabaseType own.type)
    if own.datasource.tag = "" then failAt d.span (.noDatasource store.path)
    return { store := store.path, span := d.span,
             kind := .relational own.type own.datasource own.authentication }

end Relational
end ModelGraph
