/-
# Elements of a model

An element has a name, a path, a position and annotations, and a content that
depends on its kind. Types are elements; so are functions, mappings, stores,
connections and runtimes.
-/
import ModelGraph.Document.Domain
import ModelGraph.Graph.Mapping
import ModelGraph.Stage

namespace ModelGraph

structure ClassContent where
  stage : Stage := .declared
  /-- Classes that this one extends, with the positions that say so. -/
  supers : List (TypeRef × Span) := []
  properties : List Property := []
  assocProperties : List Property := []
  qualified : List QualifiedProperty := []
  assocQualified : List QualifiedProperty := []
  originals : List Property := []
  constraints : List Constraint := []
  deriving Repr, Inhabited

structure AssociationContent where
  stage : Stage := .declared
  properties : List Property := []
  qualified : List QualifiedProperty := []
  originals : List Property := []
  /-- The types of the two properties, in the order of the document. -/
  ends : Option (TypeRef × TypeRef) := none
  /-- The classes that the declared derived properties are navigated from. -/
  receivers : List TypeRef := []
  /-- The declared derived properties as the document gives them, without bodies. -/
  signatures : List QualifiedProperty := []
  deriving Repr, Inhabited

structure TestArgument where
  name : String
  value : Option Expr := none
  data : FormatData := {}
  deriving Repr, Inhabited

structure TestAssertion where
  id : String
  kind : String
  expected : Option Expr := none
  data : FormatData := {}
  deriving Repr, Inhabited

structure FunctionTest where
  id : String
  arguments : List TestArgument := []
  assertion : TestAssertion
  span : Span := {}
  deriving Repr, Inhabited

structure FunctionContent where
  stage : Stage := .declared
  package : String
  functionName : String
  parameters : List Param := []
  resultType : GenericType
  result : Multiplicity
  body : List Expr := []
  preConstraints : List Constraint := []
  postConstraints : List Constraint := []
  tests : List FunctionTest := []
  deriving Repr, Inhabited

/-- How the result of a native function is typed from its arguments. -/
inductive ResultRule where
  | declared
  | typeOf (arg : Nat) (multiplicity : Multiplicity)
  | sameAs (arg : Nat)
  | typeArgumentOf (arg : Nat) (multiplicity : Multiplicity)
  /-- The type that an argument stands for, as often as the first argument. -/
  | castTo (arg : Nat)
  | lambdaResult (arg : Nat)
  /-- The lambda in the second argument, over the first. -/
  | mapped
  | concatenated
  /-- One of the lambdas in the second and third argument. -/
  | branches
  deriving Repr, BEq, DecidableEq, Inhabited

/-- How the parameters of a lambda among the arguments are typed. -/
inductive LambdaRule where
  | untyped
  | elementOf (arg : Nat)
  /-- One element of the first argument, and the third. -/
  | accumulator
  | applied
  deriving Repr, BEq, DecidableEq, Inhabited

structure Native where
  functionName : String
  parameters : List (TypeRef × Multiplicity)
  resultType : TypeRef
  result : Multiplicity
  resultRule : ResultRule := .declared
  lambdaRule : LambdaRule := .untyped
  deriving Repr, BEq, DecidableEq, Inhabited

structure Section where
  reader : String := ""
  imports : List String := []
  elements : List String := []
  span : Span := {}
  deriving Repr, BEq, DecidableEq, Inhabited

inductive ElementContent where
  | classType (content : ClassContent)
  | enumeration (supers : List (TypeRef × Span)) (values : List EnumValue)
  | measure (supers : List (TypeRef × Span)) (canonical : Option String)
      (nonCanonical : List String)
  | unit (measure : String) (conversion : Option Expr)
  | primitive (supers : List (TypeRef × Span))
  | association (content : AssociationContent)
  | profile (stereotypes tags : List ProfileValue)
  | function (content : FunctionContent)
  | native (content : Native)
  | mapping (content : Mapping)
  | connection (value : Option Connection)
  | runtime (value : Option Runtime)
  | sectionIndex (sections : List Section)
  | database (content : Database)
  | modelStore
  deriving Repr, Inhabited

structure Element where
  name : String
  path : String
  span : Span := {}
  annotations : Annotations := {}
  content : ElementContent
  deriving Repr, Inhabited

namespace Element

def typeKind? (e : Element) : Option TypeKind :=
  match e.content with
  | .classType _ => some .classType
  | .enumeration .. => some .enumeration
  | .measure .. => some .measure
  | .unit .. => some .unit
  | .primitive _ => some .primitive
  | _ => none

def typeRef? (e : Element) : Option TypeRef :=
  e.typeKind?.map fun kind => { kind, path := e.path, name := e.name }

def category? (e : Element) : Option Category :=
  match e.content with
  | .classType _ => some .classType
  | .enumeration .. => some .enumeration
  | .measure .. => some .measure
  | .unit .. => some .unit
  | .primitive _ => some .type
  | .association _ => some .association
  | .profile .. => some .profile
  | .function _ | .native _ => some .function
  | .mapping _ => some .mapping
  | .connection _ => some .connection
  | .runtime _ => some .runtime
  | .database _ | .modelStore => some .store
  | .sectionIndex _ => none

/-- Whether an element is of a category. Every type is of category `type`. -/
def isOf (e : Element) (c : Category) : Bool :=
  if c = .type then e.typeKind?.isSome else e.category? = some c

def superEdges (e : Element) : List (TypeRef × Span) :=
  match e.content with
  | .classType c => c.supers
  | .enumeration supers _ => supers
  | .measure supers _ _ => supers
  | .primitive supers => supers
  | _ => []

def class? (e : Element) : Option ClassContent :=
  match e.content with
  | .classType c => some c
  | _ => none

def withClass (e : Element) (c : ClassContent) : Element := { e with content := .classType c }

end Element
end ModelGraph
