/-
# Building a model

A model is built from a document in passes. Each pass goes over the declarations of
one kind, in the order of the document, so that what a pass refers to was declared by
an earlier one. The first failure ends the build.
-/
import ModelGraph.Domain.Association
import ModelGraph.Domain.Basic
import ModelGraph.Domain.Function
import ModelGraph.Domain.Generalization
import ModelGraph.Domain.Measure
import ModelGraph.Mapping.Validate
import ModelGraph.Service.Runtime

namespace ModelGraph

/-- A pass: its name, the number of declarations it goes over, and what it does. -/
structure Pass where
  name : String
  count : Nat
  run : Build Unit

namespace Pass

/-- A pass over declarations. A failure without a position is told with the path and
the position of the declaration. -/
def each (name : String) (decls : List α) (header : α → Header) (step : α → Build Unit) : Pass :=
  { name
    count := decls.length
    run := decls.forM fun d m =>
      (step d m).mapError fun f => f.anchor (header d).path (header d).span }

def whole (name : String) (count : Nat) (run : Build Unit) : Pass := { name, count, run }

end Pass

def Document.domainPasses (d : Document) (o : Options) : List Pass :=
  [.whole "sections" d.sections.length (d.sections.forM (·.declare)),
   .each "profiles" d.profiles (·.header) (·.declare),
   .each "classes.declare" d.classes (·.header) (·.declare),
   .each "enumerations" d.enumerations (·.header) (·.declare),
   .each "functions.declare" d.functions (·.header) (·.declare),
   .each "measures.declare" d.measures (·.header) (·.declare),
   .each "classes.structure" d.classes (·.header) (·.structureStep)] ++
  (if o.cycles then
    [.whole "classes.generalizations" d.classes.length (checkSupertypeCycles d.classes)]
  else []) ++
  [.each "measures.compile" d.measures (·.header) (·.compileStep),
   .each "associations.declare" d.associations (·.header) (·.declare),
   .each "classes.milestoning" d.classes (·.header) (·.milestoneStep),
   .each "associations.milestoning" d.associations (·.header) (·.milestoneStep),
   .each "classes.bodies" d.classes (·.header) (·.compileStep),
   .each "associations.bodies" d.associations (·.header) (·.compileStep),
   .each "functions.bodies" d.functions (·.header) (·.compileStep)]

namespace ExtensionDecl

/-- Whether an enabled extension knows elements of a tag. -/
def isKnown (d : ExtensionDecl) : Build Bool := fun m =>
  .ok (d.tag = Relational.elementTag && m.options.extensions.contains .relational, m)

def declare (d : ExtensionDecl) : Build Unit := do
  if ← d.isKnown then Relational.declare d else throw (.unsupported (.elementTag d.tag))

def buildStep (d : ExtensionDecl) : Build Unit := do
  if ← d.isKnown then Relational.build d else throw (.unsupported (.elementTag d.tag))

end ExtensionDecl

def checkExtensions : Build Unit := do
  let m ← get
  m.options.extensions.forM fun
    | .relational => Relational.checkIncludes

def Document.mappingPasses (d : Document) (o : Options) : List Pass :=
  [.each "extensions.declare" d.extensions (·.header) (·.declare),
   .each "extensions.build" d.extensions (·.header) (·.buildStep),
   .each "mappings.declare" d.mappings (·.header) (·.declare),
   .each "mappings.structure" d.mappings (·.header) (·.structureStep),
   .each "mappings.classMappings" d.mappings (·.header) (·.setsStep),
   .each "mappings.link" d.mappings (·.header) (·.linkStep),
   .each "connections.declare" d.connections (·.header) (·.declare),
   .each "connections.build" d.connections (·.header) (·.buildStep),
   .each "runtimes.declare" d.runtimes (·.header) (·.declare),
   .each "runtimes.build" d.runtimes (·.header) (·.buildStep),
   .whole "validators.mappings" d.mappings.length (checkMappings d.mappings),
   .whole "validators.extensions" o.extensions.length checkExtensions]

def Document.passes (d : Document) (o : Options) : List Pass :=
  d.domainPasses o ++ d.mappingPasses o

/-- What came of a build: the passes that were finished, with the numbers of
declarations, and the model or the failure that ended it. -/
structure Outcome where
  finished : List (String × Nat)
  result : Result Model

def runPasses : List Pass → Model → Outcome
  | [], m => { finished := [], result := .ok m }
  | p :: ps, m =>
    match p.run m with
    | .error f => { finished := [], result := .error f }
    | .ok (_, m) =>
      let rest := runPasses ps m
      { rest with finished := (p.name, p.count) :: rest.finished }

def Document.build (d : Document) (o : Options) : Outcome := runPasses (d.passes o) { options := o }

end ModelGraph
