/-
# Classes

A class is declared by name first. Then its supertypes and members are resolved, in
which other classes may occur; then properties of dated types are replaced; then
bodies, default values and constraints are compiled.
-/
import ModelGraph.Domain.Constraint
import ModelGraph.Domain.Member
import ModelGraph.Domain.Milestoning

namespace ModelGraph
namespace ClassDecl

def ref (d : ClassDecl) : TypeRef :=
  { kind := .classType, path := d.header.path, name := d.header.name }

def declare (d : ClassDecl) : Build Unit := do
  Build.register d.header (.classType {})
  let c ← Build.context d.header.path
  let annotations ← c.annotations d.annotations
  modify fun m => m.update d.header.path fun e => { e with annotations }

/-- The supertypes that are named, in order. `seen` are the paths named so far; the
type above all others is passed over. -/
def resolveSupers (d : ClassDecl) (c : Context) :
    List Pointer → (seen : List String) → Result (List (TypeRef × Span))
  | [], _ => .ok []
  | p :: ps, seen => do
    let span := p.span.orElse d.header.span
    let t ← c.resolveType p.path span
    if seen.contains t.path then
      failAt d.header.span (.duplicateSuperType t.path d.header.path)
    else if t.kind != .classType then
      failAt d.header.span (.superTypeNotClass d.header.name t.path)
    else
      let rest ← d.resolveSupers c ps (t.path :: seen)
      return if t = Library.any then rest else (t, span) :: rest

/-- Resolves supertypes and members. A class that names no supertype extends the type
above all others. -/
def structureStep (d : ClassDecl) : Build Unit := do
  let path := d.header.path
  let c ← Build.context path
  let m ← get
  let named ← d.resolveSupers c d.superTypes []
  let properties ← d.properties.mapM fun p => p.build c path
  let qualified ← d.qualified.zipIdx.mapM fun (q, i) => q.signature c path d.ref i
  let originals ← d.originals.mapM fun p => p.build c path
  let content ← Build.classOf path
  let stage ← content.stage.advance .structured
  Build.setClass path
    { content with
      stage
      supers := if named.isEmpty then [(Library.any, d.header.span)] else named
      properties := properties ++ dateProperties d.ref (m.declaredTemporal d.ref) d.header.span
      qualified
      originals }

def milestoneStep (d : ClassDecl) : Build Unit := milestoneClass d.ref

/-- A list of derived properties with the body of the declared one of a number set. -/
def withBody (qs : List QualifiedProperty) (owner : String) (ordinal : Nat) (body : List Expr) :
    List QualifiedProperty :=
  qs.map fun q => if q.owner = owner && q.ordinal = some ordinal then { q with body } else q

def compileQualified (d : ClassDecl) (q : QualifiedDecl) (ordinal : Nat) : Build Unit := do
  let path := d.header.path
  let content ← Build.classOf path
  match content.qualified.find? fun p => p.ordinal = some ordinal with
  | none => return ()
  | some signature =>
    let body ← q.compileBody path signature d.ref d.header.name
    let content ← Build.classOf path
    Build.setClass path
      { content with qualified := withBody content.qualified path ordinal body }

def setDefault (name : String) (value : Expr) : List Property → List Property
  | [] => []
  | p :: ps =>
    if p.name = name then { p with default := some value } :: ps
    else p :: setDefault name value ps

def compileDefault (d : ClassDecl) (p : PropertyDecl) : Build Unit := do
  let path := d.header.path
  let content ← Build.classOf path
  match p.default with
  | none => return ()
  | some default =>
    if content.properties.any fun q => q.name = p.name then
      let value ← Build.value path default.value
      let content ← Build.classOf path
      Build.setClass path
        { content with properties := setDefault p.name value content.properties }

def compileStep (d : ClassDecl) : Build Unit := do
  let path := d.header.path
  d.qualified.zipIdx.forM fun (q, i) => d.compileQualified q i
  d.properties.forM d.compileDefault
  let m ← get
  let constraints ← d.constraints.mapM fun c => c.compile path [thisBinding m d.ref]
  let content ← Build.classOf path
  let stage ← content.stage.advance .compiled
  Build.setClass path { content with constraints, stage }

end ClassDecl
end ModelGraph
