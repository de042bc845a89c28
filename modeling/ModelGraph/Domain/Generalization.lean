/-
# Cycles among supertypes

No class may extend itself through others. The first class, in the order of the
document, that does so is named with the way back to it.
-/
import ModelGraph.Domain.Class

namespace ModelGraph

def declaredSupers (m : Model) (paths : List String) (path : String) : List String :=
  match m.class? path with
  | some c => (c.supers.map fun s => s.1.path).filter paths.contains
  | none => []

def checkSupertypeCycles (classes : List ClassDecl) : Build Unit := do
  let m ← get
  let paths := classes.map fun c => c.header.path
  match Search.firstCycle? (declaredSupers m paths) (paths.length + 1) paths with
  | none => return ()
  | some cycle =>
    let first := classes.find? fun c => cycle.head? = some c.header.path
    Build.fail ((first.map fun c => c.header.span).getD {}) (.superTypeCycle cycle)

end ModelGraph
