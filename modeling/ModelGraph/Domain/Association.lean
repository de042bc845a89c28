/-
# Associations

An association has two properties, each of the type of one end and navigated from
the other. Its derived properties are navigated from the first end, unless they give
the first end's type. The classes at the ends hold the members too.
-/
import ModelGraph.Domain.Class

namespace ModelGraph
namespace AssociationDecl

def contentOf (path : String) : Build AssociationContent := fun m =>
  match m.declared? path with
  | some { content := .association a, .. } => .ok (a, m)
  | _ => .ok ({}, m)

def setContent (path : String) (a : AssociationContent) : Build Unit :=
  modify fun m => m.setContent path (.association a)

def resolveEnds (d : AssociationDecl) (c : Context) : Result (TypeRef × TypeRef) := do
  match d.properties with
  | [p, q] =>
    let first ← c.resolveClass p.typePath p.span
    let second ← c.resolveClass q.typePath q.span
    if first = Library.any || second = Library.any then
      failAt d.header.span (.associationToAny d.header.path)
    return (first, second)
  | _ => failAt d.header.span (.associationEnds d.header.path)

def receiverOf (c : Context) (ends : TypeRef × TypeRef) (q : QualifiedDecl) : TypeRef :=
  match c.resolveType q.returnPath q.span with
  | .ok t => if t = ends.1 then ends.2 else ends.1
  | .error _ => ends.1

def declare (d : AssociationDecl) : Build Unit := do
  Build.register d.header (.association {})
  let path := d.header.path
  let c ← Build.context path
  let ends ← d.resolveEnds c
  let properties ← d.properties.mapM fun p => p.build c path
  let receivers := d.qualified.map (receiverOf c ends)
  let qualified ← (d.qualified.zip receivers).zipIdx.mapM fun ((q, this), i) =>
    q.signature c path this i
  let originals ← d.originals.mapM fun p => p.build c path
  let annotations ← c.annotations d.annotations
  let stage ← Stage.declared.advance .structured
  let attach (t : TypeRef) (ps : List Property) : Build Unit := modify fun m =>
    m.updateClass t.path fun content =>
      { content with assocProperties := content.assocProperties ++ ps }
  attach ends.2 (properties.take 1)
  attach ends.1 (properties.drop 1)
  (receivers.zip qualified).forM fun (t, q) => modify fun m =>
    m.updateClass t.path fun content =>
      { content with assocQualified := content.assocQualified ++ [q] }
  modify fun m => m.update path fun e =>
    { e with
      annotations
      content := .association
        { stage, properties, qualified, originals, ends := some ends, receivers,
          signatures := qualified } }

/-- Takes over what milestoning the classes at the ends made of the members. -/
def milestoneStep (d : AssociationDecl) : Build Unit := do
  let path := d.header.path
  let a ← contentOf path
  let stage ← a.stage.advance .milestoned
  match a.ends with
  | none => return ()
  | some (first, second) =>
    let firstContent ← Build.classOf first.path
    let secondContent ← Build.classOf second.path
    let a := (a.fromEnd path second firstContent).fromEnd path first secondContent
    setContent path { a with stage }

/-- Compiles the body of a declared derived property, for the association and the
class that it is navigated from. -/
def compileQualified (d : AssociationDecl) (q : QualifiedDecl) (this : TypeRef) (ordinal : Nat) :
    Build Unit := do
  let path := d.header.path
  let a ← contentOf path
  match a.signatures.find? fun p => p.owner = path && p.ordinal = some ordinal with
  | none => return ()
  | some signature =>
    let body ← q.compileBody path signature this d.header.name
    modify fun m => m.updateClass this.path fun content =>
      { content with
        assocQualified := ClassDecl.withBody content.assocQualified path ordinal body }
    let a ← contentOf path
    setContent path { a with qualified := ClassDecl.withBody a.qualified path ordinal body }

def compileStep (d : AssociationDecl) : Build Unit := do
  let path := d.header.path
  let a ← contentOf path
  (d.qualified.zip a.receivers).zipIdx.forM fun ((q, this), i) => d.compileQualified q this i
  let a ← contentOf path
  let stage ← a.stage.advance .compiled
  setContent path { a with stage }

end AssociationDecl
end ModelGraph
