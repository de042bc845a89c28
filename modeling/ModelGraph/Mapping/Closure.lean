/-
# What a mapping includes

A mapping sees its own class and enumeration mappings first, then those of the
mappings that it includes, directly or through others, each once.
-/
import ModelGraph.Model
import ModelGraph.Search

namespace ModelGraph
namespace Model

def includesOf (m : Model) (path : String) : List String :=
  match m.mapping? path with
  | some x => x.includes.map (·.included)
  | none => []

/-- The mappings that a mapping includes, itself aside, in the order in which they are
found. -/
def includedMappings (m : Model) (path : String) : List String :=
  (Search.preorder m.includesOf (m.elements.length + 1) path).drop 1

def setsOf (m : Model) (path : String) : List (SetRef × SetImplementation) :=
  match m.mapping? path with
  | some x => x.sets.zipIdx.map fun (s, i) => ({ mapping := path, index := i }, s)
  | none => []

def setAt? (m : Model) (r : SetRef) : Option SetImplementation :=
  (m.mapping? r.mapping).bind fun x => x.sets[r.index]?

def allSets (m : Model) (path : String) : List (SetRef × SetImplementation) :=
  (path :: m.includedMappings path).flatMap m.setsOf

def setById? (m : Model) (path id : String) : Option (SetRef × SetImplementation) :=
  (m.allSets path).find? fun s => s.2.id = id

def setsOfClass (m : Model) (path : String) (t : TypeRef) : List (SetRef × SetImplementation) :=
  (m.allSets path).filter fun s => s.2.base.className.path = t.path

def allEnumMappings (m : Model) (path : String) : List EnumerationMapping :=
  (path :: m.includedMappings path).flatMap fun p => match m.mapping? p with
    | some x => x.enumMappings
    | none => []

def updateMapping (m : Model) (path : String) (f : Mapping → Mapping) : Model :=
  m.update path fun e => match e.content with
    | .mapping x => { e with content := .mapping (f x) }
    | _ => e

end Model
end ModelGraph
