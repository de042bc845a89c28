/-
# Options of a build

Which checks are made, and which extensions are asked about kinds of elements,
class mappings and connections that the core does not know.
-/
import ModelGraph.Text.Path
import ModelGraph.Text.Quote

namespace ModelGraph

inductive Extension where
  | relational
  deriving Repr, BEq, DecidableEq, Inhabited

namespace Extension

def name : Extension → String
  | relational => "relational"

def all : List Extension := [relational]

def ofName? (name : String) : Option Extension := all.find? fun e => e.name = name

def unknown (name : String) : String :=
  "unknown extension " ++ quoted name ++ " (known: [" ++
    " ".intercalate (all.map Extension.name) ++ "])"

/-- The extensions of the given names, each once, or the first name that is none. -/
def ofNames (names : List String) : Except String (List Extension) :=
  (distinct names).mapM fun name => match ofName? name with
    | some e => .ok e
    | none => .error (unknown name)

end Extension

structure Options where
  /-- A call that resolves to another function than it names is an error. -/
  strict : Bool := false
  cycles : Bool := true
  /-- A class with several class mappings has exactly one root among them. -/
  roots : Bool := true
  extensions : List Extension := []
  deriving Repr, BEq, DecidableEq, Inhabited

end ModelGraph
