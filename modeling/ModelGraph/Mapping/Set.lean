/-
# Class mappings

A class mapping builds instances of a class from instances of another, combines other
class mappings by an operation, adds aggregated variants to a main one, or is of a kind
that an extension knows. References between class mappings stay ids here; they are
linked once every mapping has its class mappings.
-/
import ModelGraph.Domain.Member
import ModelGraph.Mapping.Structure
import ModelGraph.Relational.Mapping

namespace ModelGraph

inductive SetForm where
  | instances | operation | merge | aggregation | relational | unknown
  deriving Repr, BEq, DecidableEq

def SetForm.of (extensions : List Extension) (tag : String) : SetForm :=
  if tag = "pureInstance" then instances
  else if tag = "operation" then operation
  else if tag = "mergeOperation" then merge
  else if tag = "aggregationAware" then aggregation
  else if tag = Relational.setTag && extensions.contains .relational then relational
  else unknown

inductive Operator where
  | storeUnion | routerUnion | inheritance | merge
  deriving Repr, BEq, DecidableEq

namespace Operator

def word : Operator → String
  | storeUnion => "STORE_UNION"
  | routerUnion => "ROUTER_UNION"
  | inheritance => "INHERITANCE"
  | merge => "MERGE"

def ofWord? (w : String) : Option Operator :=
  [storeUnion, routerUnion, inheritance, merge].find? fun o => o.word = w

def functionName : Operator → String
  | storeUnion => "special_union"
  | routerUnion => "union"
  | inheritance => "inheritance"
  | merge => "merge"

def function (o : Operator) : String :=
  Library.routerPackage ++ Path.separator ++ o.functionName ++
    "_OperationSetImplementation_1__SetImplementation_MANY_"

end Operator

def PropertyMappingDecl.expressionTag : String := "purePropertyMapping"

namespace ClassMappingAttrs

/-- The property that a mapping of a class refers to. A dated property is mapped
through the one with all its versions. -/
def mappedProperty (m : Model) (t : TypeRef) (p : PropertyRef) : Result Property :=
  match m.property t p.property p.span with
  | .ok found => .ok found
  | .error f =>
    match m.property t (p.property ++ allVersions) p.span with
    | .ok found => .ok found
    | .error _ => .error f

def propertyOf (c : Context) (t : TypeRef) (d : PropertyMappingDecl) : Result (Property × Bool) :=
  match d.localProperty with
  | none => (mappedProperty c.model t d.property).map fun p => (p, false)
  | some own => do
    let type ← c.resolveGeneric own.typePath own.span
    return ({ name := d.property.property, owner := c.element, type,
              multiplicity := .ofBounds own.bounds, span := own.span }, true)

def buildProperty (path : String) (base : SetBase) (scope : Scope) (d : PropertyMappingDecl) :
    Build PropertyMapping := do
  if d.tag != PropertyMappingDecl.expressionTag then
    throw (.unsupported (.purePropertyMapping d.tag))
  let c ← Build.context path
  let (property, isLocal) ← propertyOf c base.className d
  let enumMapping ←
    if d.enumMapping = "" then pure none
    else match (c.model.allEnumMappings path).find? fun e => e.name = d.enumMapping with
      | some e => pure (some e)
      | none => Build.fail d.span (.unknownEnumMapping d.enumMapping path)
  let transform ← d.transform.mapM fun n => Build.lambda path n scope
  return { property, sourceId := base.id, targetId := d.target, transform,
           explodes := d.explodes, enumMapping, isLocal, span := d.span }

def buildFilter (path id : String) (scope : Scope) (n : Node) : Build Expr := do
  let filter ← Build.lambda path n scope
  match filter.lastOfBody? with
  | some last =>
    if last.raw.isRef Library.boolean then return filter
    else Build.fail n.span (.filterNotBoolean id)
  | none => Build.fail n.span (.filterNotBoolean id)

/-- A mapping from instances of a source class, which expressions see as `src`. -/
def buildInstances (path : String) (a : ClassMappingAttrs) (base : SetBase) :
    Build SetImplementation := do
  let c ← Build.context path
  let source ← if a.srcClass = "" then pure none
    else some <$> (c.resolveType a.srcClass a.span : Result _)
  let scope : Scope := match source with
    | some t => [{ param := .ofType "src" t .one }]
    | none => []
  let filter ← a.filter.mapM (buildFilter path base.id scope)
  let properties ← a.properties.mapM (buildProperty path base scope)
  return .instances { base with properties } source filter

def buildOperation (path : String) (a : ClassMappingAttrs) (base : SetBase) (merges : Bool) :
    Build SetImplementation := do
  let word := if merges && a.operation = "" then Operator.merge.word else a.operation
  match Operator.ofWord? word with
  | none => Build.fail a.span (.unknownOperation a.operation base.id)
  | some o =>
    let validation ← if merges then a.validation.mapM fun n => Build.lambda path n else pure none
    return .operation base o.word o.function (a.parameters.map fun id => (id, none)) validation

end ClassMappingAttrs

/-- A lambda whose first parameter is left without a type. -/
def Node.untypeFirst : Node → Node
  | .mk a (.mk p x y z t :: ps) body values subTrees =>
    .mk a (.mk { p with className := "", typeExpr := none, bounds := none } x y z t :: ps)
      body values subTrees
  | n => n

/-- An aggregated value. The aggregating function is applied to what the mapping one
gives. -/
def AggregateValueDecl.build (d : AggregateValueDecl) (path : String) (scope : Scope) :
    Build (Expr × Expr) := do
  let mapper ← Build.lambda path d.mapper scope
  let typed : List Typed := mapper.lastOfBody?.toList.map fun last => (last.type, .one)
  let aggregator ← Build.lambda path d.aggregator.untypeFirst scope typed
  return (mapper, aggregator)

def AggregateHead.build (d : AggregateHead) (path : String) (this : TypeRef) :
    Build AggregateSpec := do
  let m ← get
  let scope := [thisBinding m this]
  let groupBy ← d.spec.groupBy.mapM fun g => Build.lambda path g.function scope
  let values ← d.spec.values.mapM fun v => v.build path scope
  return { index := d.index, canAggregate := d.spec.canAggregate, groupBy, values }

namespace ClassMappingDecl

mutual

/-- A class mapping of a mapping. One without an id takes `fallback`, or else the path of
its class with underscores. -/
def build (path : String) : ClassMappingDecl → (fallback : String) → Build SetImplementation
  | mk a main aggregates, fallback => do
    let a := if a.id = "" then { a with id := fallback } else a
    let c ← Build.context path
    let t ← c.resolveClass a.className (a.classSpan.orElse a.span)
    let base : SetBase :=
      { id := if a.id = "" then Path.underscored t.path else a.id
        className := t, root := a.root, parent := path, span := a.span }
    match SetForm.of c.model.options.extensions a.tag with
    | .instances => a.buildInstances path base
    | .operation => a.buildOperation path base false
    | .merge => a.buildOperation path base true
    | .aggregation =>
      match main with
      | none => Build.fail a.span (.noMainSet base.id)
      | some d =>
        let main ← build path d (base.id ++ "_Main")
        let aggregates ← buildAggregates path base.id aggregates
        return .aggregation base main aggregates
    | .relational => Relational.buildSet c a base
    | .unknown => throw (.unsupported (.classMapping a.tag))

def buildAggregates (path id : String) :
    List (AggregateHead × ClassMappingDecl) → Build (List (AggregateSpec × SetImplementation))
  | [] => return []
  | (head, d) :: rest => do
    let set ← build path d (id ++ "_Aggregate_" ++ toString head.index)
    let spec ← head.build path set.base.className
    return (spec, set) :: (← buildAggregates path id rest)

end

end ClassMappingDecl

def markRoots (sets : List SetImplementation) : List SetImplementation :=
  sets.map fun s =>
    if (sets.filter fun t => t.base.className.path = s.base.className.path).length = 1 then
      s.withBase fun b => { b with root := true }
    else s

def MappingDecl.setsStep (d : MappingDecl) : Build Unit := do
  let path := d.header.path
  let sets ← d.classMappings.mapM fun s => s.build path ""
  modify fun m => m.updateMapping path fun x => { x with sets := markRoots sets }

end ModelGraph
