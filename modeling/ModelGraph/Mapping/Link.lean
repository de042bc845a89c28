/-
# Linking mappings

Once all class mappings are there, the ids that they name are linked, association
mappings and tests are compiled, and property mappings are checked against their
properties.
-/
import ModelGraph.Mapping.Association
import ModelGraph.Mapping.Set

namespace ModelGraph
namespace Model

/-- The class mapping that values of a class go to if none is named: the only one that a
mapping sees, or the root. -/
def defaultTarget? (m : Model) (path : String) (t : TypeRef) : Option SetImplementation :=
  match m.setsOfClass path t with
  | [s] => some s.2
  | sets => (sets.find? fun s => s.2.base.root).map (·.2)

def linkProperty (m : Model) (path : String) (p : PropertyMapping) : PropertyMapping :=
  if p.targetId != "" then p
  else match p.property.type.raw.class?.bind (m.defaultTarget? path) with
    | some target => { p with targetId := target.id }
    | none => p

def linkBase (m : Model) (path : String) (b : SetBase) : SetBase :=
  { b with properties := b.properties.map (m.linkProperty path) }

def linkParameter (m : Model) (path : String) (span : Span) (id : String) :
    Result (String × Option SetRef) :=
  match m.setById? path id with
  | some s => .ok (id, some s.1)
  | none => failAt span (.unknownSet id path)

mutual

def linkSet (m : Model) (path : String) : SetImplementation → Result SetImplementation
  | .instances b source filter => .ok (.instances (m.linkBase path b) source filter)
  | .relational b database table isDistinct =>
    .ok (.relational (m.linkBase path b) database table isDistinct)
  | .operation b operator function parameters validation => do
    let parameters ← parameters.mapM fun p => m.linkParameter path b.span p.1
    return .operation (m.linkBase path b) operator function parameters validation
  | .aggregation b main aggregates => do
    let main ← linkSet m path main
    let aggregates ← linkAggregates m path aggregates
    return .aggregation (m.linkBase path b) main aggregates

def linkAggregates (m : Model) (path : String) :
    List (AggregateSpec × SetImplementation) → Result (List (AggregateSpec × SetImplementation))
  | [] => .ok []
  | (spec, set) :: rest => do
    let set ← linkSet m path set
    return (spec, set) :: (← linkAggregates m path rest)

end

end Model

def SetImplementation.core : SetImplementation → SetImplementation
  | aggregation _ main _ => main.core
  | s => s

namespace Model

def setCount (m : Model) : Nat :=
  (m.elements.flatMap fun e => m.setsOf e.path).length

/-- The types that instances of a class mapping are built from, through operations at
most `depth` deep. -/
def sourceTypesWithin (m : Model) : (depth : Nat) → SetImplementation → List TypeRef
  | 0, _ => []
  | depth + 1, s =>
    match s.core with
    | .instances _ source _ => source.toList
    | .operation _ _ _ parameters _ =>
      distinct (parameters.flatMap fun p =>
        ((p.2.bind m.setAt?).map (m.sourceTypesWithin depth)).getD [])
    | _ => []

def sourceTypes (m : Model) (s : SetImplementation) : List TypeRef :=
  m.sourceTypesWithin (m.setCount + 1) s

/-- The types that an expression for a property may have: for a class those that its
class mapping is built from, for a mapped enumeration that of the first source value,
and else the property's own. -/
def expectedTypes (m : Model) (path : String) (p : PropertyMapping) : List RawType :=
  let declared := p.property.type.raw
  if declared.class?.isSome then
    match m.setById? path p.targetId with
    | some target => (m.sourceTypes target.2).map .named
    | none => []
  else match p.enumMapping with
    | some e =>
      match (e.values.head?.bind fun v => v.sources.head?).bind SourceValue.typeRef? with
      | some t => [.named t]
      | none => []
    | none => [declared]

/-- Checks the expression of a property mapping against the property. Types may differ
along a class hierarchy, either way. -/
def checkProperty (m : Model) (path id : String) (p : PropertyMapping) : Result Unit :=
  match p.transform.bind Expr.lastOfBody? with
  | none => .ok ()
  | some last =>
    let span := last.span.orElse p.span
    let stub := "Error in class mapping '" ++ id ++ "' for property '" ++ p.property.name ++ "'"
    let misfit := (m.expectedTypes path p).find? fun t =>
      !m.isSubType last.raw t && !m.isSubType t last.raw
    let found := if p.explodes then .zeroMany else last.multiplicity
    match misfit with
    | some t => failAt span (.typeMismatch stub last.raw.render t.render)
    | none =>
      if p.property.multiplicity.subsumes found then .ok ()
      else failAt span
        (.multiplicityMismatch stub p.property.multiplicity.render found.render)

def checkSet (m : Model) (path : String) : SetImplementation → Result Unit
  | .instances b _ _ => b.properties.forM (m.checkProperty path b.id)
  | .relational b _ table _ => Relational.checkSet b table
  | .operation .. | .aggregation .. => .ok ()

end Model

def InputDataDecl.objectTag : String := "object"

def InputDataDecl.build (d : InputDataDecl) (c : Context) : Result InputData := do
  let sourceClass ←
    if d.tag != objectTag then pure none
    else if d.inputType = "" then failAt d.span .inputFormat
    else (fun t => some t.path) <$> c.resolveClass d.sourceClass d.span
  return { kind := d.tag, sourceClass, inputType := d.inputType, data := d.data }

/-- What a test expects: the contents of a text, or else the JSON text as it is. -/
def assertionText : Option Json → String
  | none => ""
  | some j =>
    match Decoder.text.decode j with
    | .ok s => s
    | .error _ => j.text

def MappingTestDecl.build (d : MappingTestDecl) (path : String) : Build MappingTest := do
  let query ← Build.lambda path d.query
  let c ← Build.context path
  let inputs ← (d.inputs.mapM (·.build c) : Result _)
  return { name := d.name, query, assertion := assertionText d.assertion, inputs }

/-- Links the class mappings of a mapping, compiles what refers to them, and checks
them. -/
def MappingDecl.linkStep (d : MappingDecl) : Build Unit := do
  let path := d.header.path
  let m ← get
  let sets ← (((m.setsOf path).map (·.2)).mapM (m.linkSet path) : Result _)
  modify fun m => m.updateMapping path fun x => { x with sets }
  let assocMappings ← d.assocMappings.mapM fun a => a.build path
  modify fun m => m.updateMapping path fun x => { x with assocMappings }
  let tests ← d.tests.mapM fun t => t.build path
  modify fun m => m.updateMapping path fun x => { x with tests }
  let m ← get
  (sets.forM (m.checkSet path) : Result Unit)

end ModelGraph
