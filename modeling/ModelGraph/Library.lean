/-
# The library

Elements that every model can refer to: primitive types, classes of the
metamodel, profiles and native functions, in groups by package.
-/
import ModelGraph.Library.Natives

namespace ModelGraph
namespace Library

def profilePackage : String := "meta::pure::profiles"

def milestoningProfile : String := "meta::pure::profiles::milestoning"

def generatedDate : String := "generatedmilestoningdateproperty"

def generatedMember : String := "generatedmilestoningproperty"

def profileElement (name : String) (stereotypes tags : List String) : Element :=
  { name
    path := Path.join profilePackage name
    content := .profile (stereotypes.map fun value => { value }) (tags.map fun value => { value }) }

def profiles : List Element :=
  [profileElement "temporal" ["businesstemporal", "processingtemporal", "bitemporal"] [],
   profileElement "milestoning" [generatedDate, generatedMember] [],
   profileElement "doc" ["deprecated"] ["doc", "todo"],
   profileElement "equality" ["Key"] [],
   profileElement "typemodifiers" ["abstract"] [],
   profileElement "access" ["private", "protected", "public", "externalizable"] [],
   profileElement "test" ["Test", "BeforePackage", "AfterPackage", "ToFix", "ExcludeAlloy"] []]

def modelStore : Element :=
  { name := modelStorePath, path := modelStorePath, content := .modelStore }

def groups : List (String × List Element) :=
  [("", primitives.map primitiveElement ++ [modelStore])] ++ classGroups ++
    [(profilePackage, profiles)] ++
    nativeGroups.map fun g => (g.1, g.2.map fun n => n.element g.1)

def find? (path : String) : Option Element :=
  let package := match Path.cutLast path with
    | some (package, _) => package
    | none => ""
  groups.findSome? fun g =>
    if g.1 = package then g.2.find? fun e => e.path = path else none

def typeCount : Nat := (groups.flatMap fun g => g.2.filter fun e => e.typeKind?.isSome).length

def hasPackage (path : String) : Bool :=
  let names := Path.split path
  groups.any fun g => g.1 != "" && names.isPrefixOf (Path.split g.1)

def functionType (serial : Nat) (parameters : List Param) (result : GenericType)
    (multiplicity : Multiplicity) : RawType :=
  .function serial (parameters.map fun p => (p.type, p.multiplicity)) result multiplicity

/-- The type of a reference to an element, such as `Class<Person>` for a class.
`serial` is the number of the function type that a reference to a function has. -/
def classifier (serial : Nat) (e : Element) : GenericType :=
  match e.content with
  | .classType _ => .mk (.named classClass) [own .classType]
  | .enumeration .. => .mk (.named enumerationClass) [own .enumeration]
  | .measure .. => .mk (.named measureClass) [own .measure]
  | .unit .. => .mk (.named unitClass) [own .unit]
  | .primitive _ => .mk (.named primitiveClass) [own .primitive]
  | .association _ => .ofRef associationClass
  | .profile .. => .ofRef profileClass
  | .function f =>
    .mk (.named concreteFunctionClass)
      [.ofRaw (functionType serial f.parameters f.resultType f.result)]
  | .native n =>
    .mk (.named nativeFunctionClass)
      [.ofRaw (functionType serial n.namedParameters (.ofRef n.resultType) n.result)]
  | .mapping _ => .ofRef mappingClass
  | .runtime _ => .ofRef runtimeClass
  | .connection _ => .ofRef connectionClass
  | .database _ | .modelStore => .ofRef storeClass
  | .sectionIndex _ => .ofRef any
where
  own (kind : TypeKind) : GenericType := .ofRef { kind, path := e.path, name := e.name }

def primitiveNames : List String :=
  (primitives.map fun p => p.1.name).mergeSort fun a b => a ≤ b

def nativeNames : List String :=
  (distinct (nativeGroups.flatMap fun g => g.2.map (·.functionName))).mergeSort fun a b => a ≤ b

end Library
end ModelGraph
