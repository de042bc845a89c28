/-
# The structure of mappings

A mapping is declared first, then told what it includes and how it maps
enumerations. An include may put one store in place of another.
-/
import ModelGraph.Build.Monad
import ModelGraph.Mapping.Closure
import ModelGraph.Mapping.Source

namespace ModelGraph

def IncludeDecl.build (d : IncludeDecl) (c : Context) (done : List MappingInclude) :
    Result MappingInclude := do
  let included ← c.resolve .mapping d.path d.span
  if done.any fun i => i.included = included.path then
    failAt d.span (.duplicateInclude included.path c.element)
  let substitutions ←
    if d.sourceStore = "" || d.targetStore = "" then pure []
    else do
      let source ← c.resolve .store d.sourceStore d.span
      let target ← c.resolve .store d.targetStore d.span
      pure [(source.path, target.path)]
  return { included := included.path, owner := c.element, substitutions, span := d.span }

namespace MappingDecl

def declare (d : MappingDecl) : Build Unit := Build.register d.header (.mapping {})

def buildIncludes (c : Context) : List IncludeDecl → List MappingInclude →
    Result (List MappingInclude)
  | [], done => .ok done
  | d :: ds, done => do
    let i ← d.build c done
    buildIncludes c ds (done ++ [i])

def structureStep (d : MappingDecl) : Build Unit := do
  let path := d.header.path
  let c ← Build.context path
  let includes ← buildIncludes c d.includes []
  let enumMappings ← (d.enumMappings.mapM (·.build c) : Result _)
  modify fun m => m.updateMapping path fun x => { x with includes, enumMappings }

end MappingDecl
end ModelGraph
