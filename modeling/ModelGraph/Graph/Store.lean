/-
# Stores, connections and runtimes

The model store is always there; databases have schemas of tables. A connection
reaches one store, and a runtime lists mappings with the connections for them.
-/
import ModelGraph.Span

namespace ModelGraph

def modelStorePath : String := "ModelStore"

structure Column where
  name : String
  type : String
  nullable : Bool := false
  deriving Repr, BEq, DecidableEq, Inhabited

structure Table where
  name : String
  columns : List Column := []
  primaryKey : List String := []
  span : Span := {}
  deriving Repr, BEq, DecidableEq, Inhabited

def Table.column? (t : Table) (name : String) : Option Column :=
  t.columns.find? fun c => c.name = name

structure TableSchema where
  name : String
  tables : List Table := []
  deriving Repr, BEq, DecidableEq, Inhabited

/-- The contents of a database; included ones by path. -/
structure Database where
  includes : List String := []
  schemas : List TableSchema := []
  deriving Repr, BEq, DecidableEq, Inhabited

structure TableRef where
  database : String
  schema : String
  table : Table
  deriving Repr, BEq, DecidableEq, Inhabited

namespace TableRef

def same (a b : TableRef) : Bool :=
  a.database = b.database && a.schema = b.schema && a.table.name = b.table.name

def render (t : TableRef) : String := t.database ++ "/" ++ t.schema ++ "." ++ t.table.name

end TableRef

structure ColumnRef where
  table : TableRef
  column : Column
  deriving Repr, BEq, DecidableEq, Inhabited

def ColumnRef.render (c : ColumnRef) : String := c.table.render ++ "." ++ c.column.name

/-- Where a relational connection finds its data. -/
structure Datasource where
  tag : String := ""
  host : String := ""
  port : Int := 0
  databaseName : String := ""
  deriving Repr, BEq, DecidableEq, Inhabited

inductive ConnectionKind where
  | json (className url : String)
  | xml (className url : String)
  | chain (mappings : List String)
  | relational (type : String) (datasource : Datasource) (authentication : String)
  deriving Repr, BEq, DecidableEq

structure Connection where
  store : String
  span : Span := {}
  kind : ConnectionKind
  deriving Repr, BEq, DecidableEq

structure StoreConnections where
  store : String
  connections : List (String × Connection) := []
  deriving Repr, BEq, DecidableEq

structure Runtime where
  mappings : List String := []
  connections : List StoreConnections := []
  span : Span := {}
  deriving Repr, BEq, DecidableEq

def Runtime.reaches (r : Runtime) (store : String) : Bool :=
  r.connections.any fun group => group.connections.any fun c => c.2.store = store

end ModelGraph
