/-
# Milestoning

A class that declares time dimensions gets a property for each date and one for its
range. A property whose type declares time dimensions is replaced: by an edge point
that gives all versions, and by derived properties that take dates and filter the
edge point by them.
-/
import ModelGraph.Build.Monad

namespace ModelGraph

namespace Node

def reference (name : String) : Node := .mk { tag := variableTag, name } [] [] [] []

def parameterOf (name path : String) : Node :=
  .mk { tag := variableTag, name, className := path,
        bounds := some { lower := 1, upper := some 1 } } [] [] [] []

def call (function : String) (args : List Node) : Node :=
  .mk { tag := functionTag, function } args [] [] []

def select (receiver : Node) (property : String) : Node :=
  .mk { tag := propertyTag, property } [receiver] [] [] []

def lambdaOf (parameter body : Node) : Node :=
  .mk { tag := lambdaTag } [parameter] [body] [] []

end Node

def generatedMark (value : String) : ProfileEntry :=
  { profile := Library.milestoningProfile, value }

def dateProperties (owner : TypeRef) (t : Temporal) (span : Span) : List Property :=
  match Library.rangeClass t with
  | none => []
  | some range =>
    let annotations : Annotations := { stereotypes := [generatedMark Library.generatedDate] }
    t.dateNames.map (fun name =>
      { name, owner := owner.path, type := .ofRef Library.date, multiplicity := .one,
        annotations, span }) ++
    [{ name := "milestoning", owner := owner.path, type := .ofRef range,
       multiplicity := .zeroOne, annotations, span }]

structure DatedProperty where
  property : Property
  edgePoint : Property
  derived : List QualifiedProperty

namespace DatedProperty

def rangeStart : String := "start"

def rangeEnd : String := "end"

def versionVariable : String := "v_milestoning"

/-- What replaces a property of a class, where the class declares `source` and the
type of the property `target`. -/
def of (owner : TypeRef) (source target : Temporal) (p : Property) : DatedProperty :=
  let annotations : Annotations :=
    { p.annotations with
      stereotypes := p.annotations.stereotypes ++ [generatedMark Library.generatedMember] }
  let date (name : String) : Param := .ofType name Library.date .one
  let derive (name : String) (parameters : List Param) : QualifiedProperty :=
    { name, owner := p.owner, parameters := .ofType "this" owner .one :: parameters,
      type := p.type, multiplicity := p.multiplicity, annotations, span := p.span }
  { property := p
    edgePoint :=
      { name := p.name ++ allVersions, owner := p.owner, type := p.type,
        multiplicity := { lower := p.multiplicity.lower, upper := none },
        aggregation := p.aggregation, annotations, span := p.span }
    derived :=
      [derive p.name (target.dateNames.map date)] ++
      (if target.isSingle then
        [derive (p.name ++ allVersionsInRange) [date rangeStart, date rangeEnd]] else []) ++
      (if source != .none && (source = target || source = .both) then [derive p.name []]
      else []) }

def comparison (date against : String) : Node :=
  Node.call "eq" [Node.select (Node.reference versionVariable) date, Node.reference against]

/-- The condition that a version holds at the given dates, or since the start of the
given range. -/
def condition (target : Temporal) (ranged : Bool) : Node :=
  match target.dateNames with
  | [] => .empty
  | [d] => comparison d (if ranged then rangeStart else d)
  | d :: e :: _ =>
    if ranged then comparison d rangeStart
    else Node.call "and" [comparison d d, comparison e e]

def bodyNode (d : DatedProperty) (target : Temporal) (q : QualifiedProperty) : Node :=
  Node.call "filter"
    [Node.select (Node.reference "this") d.edgePoint.name,
     Node.lambdaOf (Node.parameterOf versionVariable d.property.type.raw.path)
       (condition target (endsWithText q.name allVersionsInRange))]

/-- The variables that the body of a derived property sees. Without parameters it
refers to dates that are in force where it is applied. -/
def bodyScope (target : Temporal) (q : QualifiedProperty) : Scope :=
  let parameters := if q.parameters.length = 1 then
      q.parameters ++ target.dateNames.map fun n => .ofType n Library.date .one
    else q.parameters
  parameters.foldl (fun s p => { param := p } :: s) []

def compile (d : DatedProperty) (owner : TypeRef) (q : QualifiedProperty) :
    Build QualifiedProperty := fun m =>
  let target := m.rawTemporal d.property.type.raw
  match Build.value owner.path (d.bodyNode target q) (bodyScope target q) m with
  | .ok (e, m) => .ok ({ q with body := [e] }, m)
  | .error f =>
    .error (f.wrap d.property.span (.milestonedMember q.name owner.path f.message))

end DatedProperty

/-- The lists of a class in which milestoning replaces properties. -/
structure MemberLists where
  get : ClassContent → List Property × List QualifiedProperty
  put : List Property × List QualifiedProperty → ClassContent → ClassContent

namespace MemberLists

def own : MemberLists :=
  { get := fun c => (c.properties, c.qualified)
    put := fun l c => { c with properties := l.1, qualified := l.2 } }

def associated : MemberLists :=
  { get := fun c => (c.assocProperties, c.assocQualified)
    put := fun l c => { c with assocProperties := l.1, assocQualified := l.2 } }

end MemberLists

def addOriginals (known : List Property) (found : List DatedProperty) : List Property :=
  known ++ (found.map (·.property)).filter fun p => !known.any fun k => k.name = p.name

/-- Replaces the properties of dated types in the given lists of a class. Members that
carry the mark of generated ones do not count, and go if any is replaced. -/
def replaceDated (owner : TypeRef) (lists : MemberLists) : Build Unit := do
  let m ← get
  let c ← Build.classOf owner.path
  let (properties, derived) := lists.get c
  let candidates := properties.filter fun p =>
    !p.annotations.has Library.milestoningProfile Library.generatedMember
  let isDated (p : Property) : Bool := m.rawTemporal p.type.raw != .none
  let found := (candidates.filter isDated).map fun p =>
    DatedProperty.of owner (m.declaredTemporal owner) (m.rawTemporal p.type.raw) p
  if found.isEmpty then return ()
  let stored := candidates.filter (fun p => !isDated p) ++ found.map (·.edgePoint)
  Build.setClass owner.path
    { lists.put (stored, derived ++ found.flatMap (·.derived)) c with
      originals := addOriginals c.originals found }
  let compiled ← found.mapM fun d => d.derived.mapM (d.compile owner)
  let c ← Build.classOf owner.path
  Build.setClass owner.path (lists.put (stored, derived ++ compiled.flatten) c)

/-- Milestones a class: its own properties, then those it has from associations. -/
def milestoneClass (owner : TypeRef) : Build Unit := do
  replaceDated owner .own
  replaceDated owner .associated
  let c ← Build.classOf owner.path
  let stage ← c.stage.advance .milestoned
  Build.setClass owner.path { c with stage }

/-- The lists of an association after its ends were milestoned, seen from one end: its
members of the other end's type give way to what the end has for them. -/
def AssociationContent.fromEnd (a : AssociationContent) (path : String) (source : TypeRef)
    (target : ClassContent) : AssociationContent :=
  if !target.originals.any fun p => p.owner = path then a
  else
    let ofSource (t : GenericType) : Bool := t.raw.isRef source
    { a with
      properties := (a.properties.filter fun p => !ofSource p.type) ++
        target.assocProperties.filter fun p => p.owner = path
      qualified := (a.qualified.filter fun q => !ofSource q.type) ++
        target.assocQualified.filter fun q => q.owner = path
      originals := (a.originals.filter fun p => !ofSource p.type) ++
        target.originals.filter fun p => p.owner = path }

end ModelGraph
