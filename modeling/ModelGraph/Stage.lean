/-
# Stages of a build

Classes, associations and functions pass through stages while a model is built.
An element only moves forward; a step that does not is refused.
-/
import ModelGraph.Failure

namespace ModelGraph

structure Stage where
  rank : Int
  deriving Repr, BEq, DecidableEq, Inhabited

namespace Stage

def declared : Stage := ⟨0⟩

def structured : Stage := ⟨1⟩

/-- Members of temporal types have been replaced. -/
def milestoned : Stage := ⟨2⟩

def compiled : Stage := ⟨3⟩

def name (s : Stage) : String :=
  if s = declared then "Declared" else if s = structured then "Structured"
  else if s = milestoned then "MilestoningResolved" else if s = compiled then "BodiesCompiled"
  else s!"stage({s.rank})"

def advance (s next : Stage) : Result Stage :=
  if next.rank ≤ s.rank then .error (.plain (.invalidStage s.name next.name)) else .ok next

end Stage
end ModelGraph
