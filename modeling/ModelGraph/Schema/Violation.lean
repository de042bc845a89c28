/-
# Violations of a schema

A violation says where in a document which rule is broken. Rules that are made of
others break because these do, so violations form trees; a reader is shown the leaves,
from left to right. `flatten` finds them with a stack of trees that are still to be
taken apart.
-/
import ModelGraph.Text.Quote

namespace ModelGraph

/-- The kinds of JSON values; integers are a part of the numbers. -/
inductive JsonKind where
  | null | boolean | number | integer | string | array | object
  deriving Repr, BEq, DecidableEq, Inhabited

def JsonKind.word : JsonKind → String
  | null => "null"
  | boolean => "boolean"
  | number => "number"
  | integer => "integer"
  | string => "string"
  | array => "array"
  | object => "object"

inductive Breach where
  | kind (found : JsonKind) (wanted : List JsonKind)
  | value (wanted : List String)
  | missing (names : List String)
  | additional (names : List String)
  | minLength (found wanted : Nat)
  | minItems (found wanted : Nat)
  | minimum (found wanted : String)
  deriving Repr, BEq, DecidableEq, Inhabited

/-- A text of a document in single quotes. A backslash at its end is not escaped. -/
def documentQuoted (s : String) : String :=
  match s.toList.reverse with
  | '\\' :: rest =>
    String.ofList ('\'' :: rest.reverse.flatMap singleQuotedChar ++ ['\\', '\''])
  | _ => singleQuoted s

namespace Breach

def names (ns : List String) : String := ", ".intercalate (ns.map documentQuoted)

def message : Breach → String
  | kind found wanted =>
    "got " ++ found.word ++ ", want " ++ " or ".intercalate (wanted.map JsonKind.word)
  | value [wanted] => "value must be " ++ documentQuoted wanted
  | value wanted => "value must be one of " ++ names wanted
  | missing [name] => "missing property " ++ documentQuoted name
  | missing ns => "missing properties " ++ names ns
  | additional ns => "additional properties " ++ names ns ++ " not allowed"
  | minLength found wanted => s!"minLength: got {found}, want {wanted}"
  | minItems found wanted => s!"minItems: got {found}, want {wanted}"
  | minimum found wanted => s!"minimum: got {found}, want {wanted}"

end Breach

/-- A violation as it is shown: where it is, and what is wrong. -/
structure SchemaError where
  path : String := ""
  message : String
  unreadable : Bool := false
  deriving Repr, BEq, DecidableEq, Inhabited

/-- A violation at a place in a document, with the violations that are the cause of it.
A place is given by names of members and numbers of items, from the outside in. -/
inductive Violation where
  | mk (place : List String) (text : String) (causes : List Violation)
  deriving Repr, Inhabited

namespace Violation

def place : Violation → List String
  | mk p _ _ => p

def text : Violation → String
  | mk _ t _ => t

def causes : Violation → List Violation
  | mk _ _ cs => cs

def escapeName (name : String) : String :=
  String.ofList (name.toList.flatMap fun c =>
    if c = '~' then ['~', '0'] else if c = '/' then ['~', '1'] else [c])

def pointer (place : List String) : String := String.join (place.map ("/" ++ ·))

def ofBreach (place : List String) (b : Breach) : Violation :=
  mk place ("at " ++ documentQuoted (pointer (place.map escapeName)) ++ ": " ++ b.message) []

def group (place : List String) (causes : List Violation) : Violation := mk place "" causes

mutual

def size : Violation → Nat
  | mk _ _ cs => 1 + sizes cs

def sizes : List Violation → Nat
  | [] => 0
  | v :: vs => size v + sizes vs

end

theorem sizes_append (vs ws : List Violation) : sizes (vs ++ ws) = sizes vs + sizes ws := by
  induction vs with
  | nil => simp [sizes]
  | cons v vs ih => simp [sizes, ih, Nat.add_assoc]

def shown : Violation → List SchemaError
  | mk p t _ => if t = "" then [] else [{ path := pointer p, message := t }]

/-- The leaves of the trees on a stack, the top first. A violation with causes gives way
to them. -/
def flatten : List Violation → List SchemaError
  | [] => []
  | mk p t [] :: rest => shown (mk p t []) ++ flatten rest
  | mk _ _ (c :: cs) :: rest => flatten (c :: cs ++ rest)
termination_by stack => sizes stack
decreasing_by
  · simp [sizes, size]
  · simp [sizes, size, sizes_append]; omega

def leaves (v : Violation) : List SchemaError := flatten [v]

end Violation
end ModelGraph
