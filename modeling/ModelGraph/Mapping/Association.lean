/-
# Association mappings

An association between classes in different stores is mapped by a condition on an
instance of each. The ends of a property mapping are the classes of the class mappings
that it names, or else those of the association.
-/
import ModelGraph.Mapping.Structure

namespace ModelGraph

def AssociationMappingDecl.crossTag : String := "xStore"

def PropertyMappingDecl.crossTag : String := "xStorePropertyMapping"

def Element.associationProperties (e : Element) : List Property :=
  match e.content with
  | .association a => a.properties
  | _ => []

def endsOf (properties : List Property) (name : String) :
    Option (Property × Option Property) :=
  (properties.zipIdx.find? fun p => p.1.name = name).map fun (p, i) =>
    (p, ((properties.zipIdx.filter fun q => q.2 != i).getLast?).map (·.1))

/-- The type of an end: the class of the class mapping of an id, or else the given one. -/
def Model.endType (m : Model) (path id : String) (given : RawType) : RawType :=
  match m.setById? path id with
  | some s => .named s.2.base.className
  | none => given

/-- A property mapping of an association. The condition sees the ends as `this` and
`that`. -/
def PropertyMappingDecl.buildCross (d : PropertyMappingDecl) (path : String)
    (association : Element) : Build PropertyMapping := do
  if d.tag != crossTag then throw (.unsupported (.crossPropertyMapping d.tag))
  match endsOf association.associationProperties d.property.property with
  | none =>
    Build.fail d.property.span
      (.unknownAssociationProperty d.property.property association.path)
  | some (property, other) =>
    match d.crossExpression with
    | none => Build.fail d.span (.noCrossExpression property.name)
    | some n =>
      let m ← get
      let this := m.endType path d.source ((other.getD property).type.raw)
      let that := m.endType path d.target property.type.raw
      let bind (name : String) (r : RawType) : Binding :=
        { param := { name, type := .ofRaw r, multiplicity := .one } }
      let condition ← Build.lambda path n [bind "that" that, bind "this" this]
      let fits := condition.lastOfBody?.any fun last =>
        last.raw.isRef Library.boolean && last.multiplicity.isOne
      if !fits then Build.fail n.span .crossNotBoolean
      return { property, sourceId := d.source, targetId := d.target,
               crossExpression := some condition, span := d.span }

namespace AssociationMappingDecl

/-- The id of an association mapping: the declared one, or one made from the path of the
association. -/
def idOf (d : AssociationMappingDecl) : String :=
  if d.id = "" then Path.underscored d.association.path else d.id

def build (d : AssociationMappingDecl) (path : String) : Build AssociationMapping := do
  if d.tag != crossTag then throw (.unsupported (.associationMapping d.tag))
  let c ← Build.context path
  let association ← c.resolve .association d.association.path (d.association.span.orElse d.span)
  let stores ← (d.stores.mapM fun s => c.resolve .store s d.span : Result _)
  let properties ← d.properties.mapM fun p => p.buildCross path association
  return { id := d.idOf, association := association.path, parent := path,
           stores := stores.map (·.path), properties, span := d.span }

end AssociationMappingDecl
end ModelGraph
