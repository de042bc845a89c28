/-
# Supertypes

The order in which a type and its supertypes are searched is depth first, each
type once, with `Any` last. A type is a subtype of all in its order; besides,
every type is one of `Any`, `Nil` is one of every type, and a unit is one of its
measure. The time dimensions of a class are those of the first in its order that
declares some.
-/
import ModelGraph.Model
import ModelGraph.Search

namespace ModelGraph

def RawType.isAny (r : RawType) : Bool := r.path = Library.any.path

def RawType.isNil (r : RawType) : Bool := r.path = Library.nil.path

namespace Model

def supers (m : Model) (t : TypeRef) : List TypeRef :=
  match m.element? t.path with
  | some e => e.superEdges.map (·.1)
  | none => []

def typeBound (m : Model) : Nat := m.elements.length + Library.typeCount + 1

def order (m : Model) (t : TypeRef) : List TypeRef :=
  let found := Search.preorder m.supers m.typeBound t
  found.filter (· != Library.any) ++ found.filter (· == Library.any)

def rawOrder (m : Model) : RawType → List RawType
  | .named t => (m.order t).map .named
  | f => [f]

def measureOf? (m : Model) (path : String) : Option String :=
  match m.element? path with
  | some e => match e.content with
    | .unit measure _ => some measure
    | _ => none
  | none => none

def isSubType (m : Model) (sub sup : RawType) : Bool :=
  sub.same sup || sup.isAny || sub.isNil ||
    (sub.path != "" && m.measureOf? sub.path = some sup.path) ||
    (m.rawOrder sub).any (·.same sup)

/-- The first common supertype in the order of the first type; `Nil` among several
types is left out. -/
def commonSuper (m : Model) (types : List RawType) : RawType :=
  match types.filter fun t => !t.isNil with
  | [] => types.head?.getD (.named Library.any)
  | first :: rest =>
    ((m.rawOrder first).find? fun c => (first :: rest).all fun t => m.isSubType t c).getD
      (.named Library.any)

def temporalStereotype (a : Annotations) : Temporal :=
  (a.stereotypes.findSome? fun s =>
    if s.profile = Temporal.profile then Temporal.ofStereotype? s.value else none).getD .none

def declaredTemporal (m : Model) (t : TypeRef) : Temporal :=
  if t.kind = .classType then
    match m.element? t.path with
    | some e => temporalStereotype e.annotations
    | none => .none
  else .none

/-- The time dimensions of a class, its supertypes included. -/
def temporal (m : Model) (t : TypeRef) : Temporal :=
  if t.kind = .classType then
    ((m.order t).findSome? fun s => match m.element? s.path with
      | some e => match temporalStereotype e.annotations with
        | .none => none
        | found => some found
      | none => none).getD .none
  else .none

def classOrder (m : Model) (t : TypeRef) : List (TypeRef × ClassContent) :=
  (m.order t).filterMap fun s => (m.class? s.path).map fun c => (s, c)

/-- A stored property of a class, from an association perhaps, or of a supertype. -/
def property (m : Model) (t : TypeRef) (name : String) (span : Span) : Result Property :=
  match (m.classOrder t).findSome? fun (_, c) =>
      (c.properties ++ c.assocProperties).find? fun p => p.name = name with
  | some p => .ok p
  | none => failAt span (.unknownPropertyOf name t.path)

/-- The declared classes that extend a class, in the order of declaration. -/
def subclasses (m : Model) (path : String) : List String :=
  m.elements.flatMap fun e => match e.content with
    | .classType c => (c.supers.filter fun s => s.1.path = path).map fun _ => e.path
    | _ => []

end Model
end ModelGraph
