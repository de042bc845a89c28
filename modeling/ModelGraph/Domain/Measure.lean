/-
# Measures

The units of a measure are types of their own, named after the measure. They are
converted by functions of one number.
-/
import ModelGraph.Build.Monad

namespace ModelGraph
namespace MeasureDecl

def unitHeader (d : MeasureDecl) (u : UnitDecl) : Header :=
  { package := d.header.package, name := d.header.name ++ "~" ++ u.header.name,
    span := u.header.span }

def declareUnit (d : MeasureDecl) (u : UnitDecl) : Build String := do
  let header := d.unitHeader u
  Build.register header (.unit d.header.path none)
  modify fun m => { m with imports := m.imports ++ [(header.path, m.importsOf d.header.path)] }
  return header.path

def declare (d : MeasureDecl) : Build Unit := do
  let supers := [(Library.any, d.header.span)]
  Build.register d.header (.measure supers none [])
  let canonical ← d.canonical.mapM d.declareUnit
  let nonCanonical ← d.nonCanonical.mapM d.declareUnit
  modify fun m => m.setContent d.header.path (.measure supers canonical nonCanonical)

def compileUnit (d : MeasureDecl) (u : UnitDecl) : Build Unit := do
  match u.conversion with
  | none => return ()
  | some n =>
    let e ← Build.settle fun m =>
      let c := Context.of m d.header.path
      Expression.run m [] (Expression.lambda c n.attrs (n.parameters.map (·.attrs))
        (Expression.compileAll c n.body) [(.ofRef Library.number, .one)] none)
    modify fun m => m.setContent (d.unitHeader u).path (.unit d.header.path (some e))

def compileStep (d : MeasureDecl) : Build Unit := do
  d.canonical.forM d.compileUnit
  d.nonCanonical.forM d.compileUnit

end MeasureDecl
end ModelGraph
