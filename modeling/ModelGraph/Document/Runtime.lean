/-
# Declarations of connections and runtimes

A connection says how a store is reached, a runtime which mappings it serves and
which connections reach their stores.
-/
import ModelGraph.Document.Basic

namespace ModelGraph

open Decode (Decoded Slot)

/-- A connection. The whole object is kept for the variants of extensions. -/
structure ConnectionDecl where
  tag : String := ""
  element : String := ""
  className : String := ""
  url : String := ""
  mappings : List String := []
  connection : String := ""
  elementSpan : Span := {}
  span : Span := {}
  raw : Json := .null
  deriving Repr, BEq, Inhabited

namespace ConnectionDecl

def fields : List (Slot ConnectionDecl) :=
  [.text "_type" fun v c => { c with tag := v },
   .text "element" fun v c => { c with element := v },
   .text "class" fun v c => { c with className := v },
   .text "url" fun v c => { c with url := v },
   .list "mappings" .text fun v c => { c with mappings := v },
   .text "connection" fun v c => { c with connection := v },
   Span.field "elementSourceInformation" fun v c => { c with elementSpan := v },
   Span.field "sourceInformation" fun v c => { c with span := v }]

def decoder : Decoder ConnectionDecl :=
  .whole (.record fields {}) fun j c => { c with raw := j }

end ConnectionDecl

structure ConnectionElementDecl where
  header : Header := {}
  value : ConnectionDecl := {}
  deriving Repr, BEq, Inhabited

def ConnectionElementDecl.fields : List (Slot ConnectionElementDecl) :=
  Header.fields (·.header) (fun v c => { c with header := v }) ++
  [.field "connectionValue" ConnectionDecl.decoder fun v c => { c with value := v }]

def ConnectionElementDecl.decoder : Decoder ConnectionElementDecl := .record ConnectionElementDecl.fields {}

structure IdentifiedConnectionDecl where
  id : String := ""
  connection : ConnectionDecl := {}
  span : Span := {}
  deriving Repr, BEq, Inhabited

def IdentifiedConnectionDecl.fields : List (Slot IdentifiedConnectionDecl) :=
  [.text "id" fun v c => { c with id := v },
   .field "connection" ConnectionDecl.decoder fun v c => { c with connection := v },
   Span.field "sourceInformation" fun v c => { c with span := v }]

def IdentifiedConnectionDecl.decoder : Decoder IdentifiedConnectionDecl := .record IdentifiedConnectionDecl.fields {}

structure StoreConnectionsDecl where
  store : Pointer := {}
  connections : List IdentifiedConnectionDecl := []
  span : Span := {}
  deriving Repr, BEq, Inhabited

def StoreConnectionsDecl.fields : List (Slot StoreConnectionsDecl) :=
  [.field "store" Pointer.decoder fun v c => { c with store := v },
   .list "storeConnections" IdentifiedConnectionDecl.decoder
     fun v c => { c with connections := v },
   Span.field "sourceInformation" fun v c => { c with span := v }]

def StoreConnectionsDecl.decoder : Decoder StoreConnectionsDecl := .record StoreConnectionsDecl.fields {}

structure RuntimeDecl where
  tag : String := ""
  mappings : List Pointer := []
  connections : List StoreConnectionsDecl := []
  span : Span := {}
  deriving Repr, BEq, Inhabited

def RuntimeDecl.fields : List (Slot RuntimeDecl) :=
  [.text "_type" fun v r => { r with tag := v },
   .list "mappings" Pointer.decoder fun v r => { r with mappings := v },
   .list "connections" StoreConnectionsDecl.decoder
     fun v r => { r with connections := v },
   Span.field "sourceInformation" fun v r => { r with span := v }]

def RuntimeDecl.decoder : Decoder RuntimeDecl := .record RuntimeDecl.fields {}

structure RuntimeElementDecl where
  header : Header := {}
  value : RuntimeDecl := {}
  deriving Repr, BEq, Inhabited

def RuntimeElementDecl.fields : List (Slot RuntimeElementDecl) :=
  Header.fields (·.header) (fun v r => { r with header := v }) ++
  [.field "runtimeValue" RuntimeDecl.decoder
    fun v r => { r with value := v }]

def RuntimeElementDecl.decoder : Decoder RuntimeElementDecl := .record RuntimeElementDecl.fields {}

end ModelGraph
