/-
# Members of elements

Properties, derived properties, constraints and enumeration values, with their
annotations.
-/
import ModelGraph.Graph.Expr

namespace ModelGraph

structure ProfileEntry where
  profile : String
  value : String
  deriving Repr, BEq, DecidableEq, Inhabited

structure TaggedValue where
  tag : ProfileEntry
  value : String
  span : Span := {}
  deriving Repr, BEq, DecidableEq, Inhabited

structure Annotations where
  stereotypes : List ProfileEntry := []
  taggedValues : List TaggedValue := []
  deriving Repr, BEq, DecidableEq, Inhabited

def Annotations.has (a : Annotations) (profile value : String) : Bool :=
  a.stereotypes.contains { profile, value }

structure Property where
  name : String
  owner : String
  type : GenericType
  multiplicity : Multiplicity
  aggregation : String := ""
  default : Option Expr := none
  annotations : Annotations := {}
  span : Span := {}
  deriving Repr, Inhabited

def Property.callee (p : Property) : Callee := .property p.owner p.name

/-- A derived property. The first parameter is the receiver, `this`. A declared
one carries its number among those of its element; a generated one has none. -/
structure QualifiedProperty where
  name : String
  owner : String
  parameters : List Param
  type : GenericType
  multiplicity : Multiplicity
  body : List Expr := []
  annotations : Annotations := {}
  span : Span := {}
  ordinal : Option Nat := none
  deriving Repr, Inhabited

namespace QualifiedProperty

def arity (q : QualifiedProperty) : Nat := q.parameters.length - 1

def callee (q : QualifiedProperty) : Callee := .qualified q.owner q.name q.arity

end QualifiedProperty

inductive Member where
  | stored (property : Property)
  | derived (property : QualifiedProperty)

namespace Member

def callee : Member → Callee
  | stored p => p.callee
  | derived q => q.callee

def type : Member → GenericType
  | stored p => p.type
  | derived q => q.type

def multiplicity : Member → Multiplicity
  | stored p => p.multiplicity
  | derived q => q.multiplicity

end Member

/-- A condition on an element, with the message to give. -/
structure Constraint where
  name : String
  owner : String
  condition : Expr
  message : Option Expr := none
  externalId : String := ""
  level : String := ""
  span : Span := {}
  deriving Repr, Inhabited

structure EnumValue where
  name : String
  annotations : Annotations := {}
  span : Span := {}
  deriving Repr, BEq, DecidableEq, Inhabited

end ModelGraph
