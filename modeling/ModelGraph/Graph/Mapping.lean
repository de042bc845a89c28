/-
# Mappings

A mapping holds class mappings (set implementations), enumeration mappings and
association mappings. A class mapping of a mapping is referred to by the path of
the mapping and its place in it.
-/
import ModelGraph.Graph.Member
import ModelGraph.Graph.Store

namespace ModelGraph

inductive SourceValue where
  | text (value : String)
  | integer (value : Int)
  | float (bits : UInt64)
  | enumValue (enumeration name : String)
  | other (value : Json)
  deriving Repr, BEq, Inhabited

structure EnumValueMapping where
  name : String
  sources : List SourceValue
  deriving Repr, BEq, Inhabited

structure EnumerationMapping where
  name : String
  enumeration : TypeRef
  parent : String
  values : List EnumValueMapping := []
  span : Span := {}
  deriving Repr, BEq, Inhabited

structure PropertyMapping where
  property : Property
  sourceId : String := ""
  targetId : String := ""
  transform : Option Expr := none
  explodes : Bool := false
  enumMapping : Option EnumerationMapping := none
  isLocal : Bool := false
  crossExpression : Option Expr := none
  column : Option ColumnRef := none
  span : Span := {}
  deriving Repr, Inhabited

/-- A class mapping by the path of its mapping and its place there. -/
structure SetRef where
  mapping : String
  index : Nat
  deriving Repr, BEq, DecidableEq, Inhabited

structure SetBase where
  id : String
  className : TypeRef
  root : Bool := false
  parent : String
  properties : List PropertyMapping := []
  span : Span := {}
  deriving Repr, Inhabited

structure AggregateSpec where
  index : Int
  canAggregate : Bool := false
  groupBy : List Expr := []
  values : List (Expr × Expr) := []
  deriving Repr, Inhabited

inductive SetImplementation where
  | instances (base : SetBase) (source : Option TypeRef) (filter : Option Expr)
  /-- Other class mappings combined by an operation; parameters by id, with what
  they lead to once they are linked. -/
  | operation (base : SetBase) (operator function : String)
      (parameters : List (String × Option SetRef)) (validation : Option Expr)
  | aggregation (base : SetBase) (main : SetImplementation)
      (aggregates : List (AggregateSpec × SetImplementation))
  | relational (base : SetBase) (database : String) (table : TableRef) (isDistinct : Bool)
  deriving Repr, Inhabited

namespace SetImplementation

def base : SetImplementation → SetBase
  | instances b _ _ => b
  | operation b _ _ _ _ => b
  | aggregation b _ _ => b
  | relational b _ _ _ => b

/-- The class mapping with its common part changed. -/
def withBase (f : SetBase → SetBase) : SetImplementation → SetImplementation
  | instances b s x => instances (f b) s x
  | operation b o fn ps v => operation (f b) o fn ps v
  | aggregation b m as => aggregation (f b) m as
  | relational b d t x => relational (f b) d t x

def id (s : SetImplementation) : String := s.base.id

end SetImplementation

structure AssociationMapping where
  id : String
  association : String
  parent : String
  stores : List String := []
  properties : List PropertyMapping := []
  span : Span := {}
  deriving Repr, Inhabited

structure InputData where
  kind : String
  sourceClass : Option String := none
  inputType : String := ""
  data : String := ""
  deriving Repr, BEq, DecidableEq, Inhabited

structure MappingTest where
  name : String
  query : Expr
  assertion : String := ""
  inputs : List InputData := []
  deriving Repr, Inhabited

/-- An include of another mapping, with a store put in place of another maybe. -/
structure MappingInclude where
  included : String
  owner : String
  substitutions : List (String × String) := []
  span : Span := {}
  deriving Repr, BEq, DecidableEq, Inhabited

structure Mapping where
  includes : List MappingInclude := []
  sets : List SetImplementation := []
  enumMappings : List EnumerationMapping := []
  assocMappings : List AssociationMapping := []
  tests : List MappingTest := []
  deriving Repr, Inhabited

end ModelGraph
