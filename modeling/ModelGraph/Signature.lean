/-
# Names of functions with their signature

Functions may share a plain name; the element that stands for one carries types
and multiplicities of its parameters and result in its name.
-/
import ModelGraph.Multiplicity

namespace ModelGraph

/-- The declared type paths and multiplicities of parameters and result. -/
structure Signature where
  parameters : List (String × Multiplicity)
  resultType : String
  result : Multiplicity
  deriving Repr, BEq, DecidableEq

namespace Signature

def part (p : String × Multiplicity) : String := Path.lastSegment p.1 ++ "_" ++ p.2.signature

/-- What the signature adds to a name. Parameters without a type are left out. -/
def suffix (s : Signature) : String :=
  "_" ++ "__".intercalate ((s.parameters.filter fun p => p.1 != "").map part) ++ "__" ++
    part (s.resultType, s.result) ++ "_"

/-- The name of the element, for a name that may carry the signature already. -/
def elementName (s : Signature) (name : String) : String :=
  if endsWithText name s.suffix then name else name ++ s.suffix

def plainName (s : Signature) (name : String) : String := withoutEnding name s.suffix

end Signature
end ModelGraph
