/-
# The types of the library

The types that every model builds on: `Any` and `Nil`, the primitive types, and
the classes of elements, expressions and milestoning ranges.
-/
import ModelGraph.Graph.Element

namespace ModelGraph
namespace Library

def classRef (package name : String) : TypeRef :=
  { kind := .classType, path := package ++ "::" ++ name, name }

def primitiveRef (name : String) : TypeRef := { kind := .primitive, path := name, name }

def typePackage : String := "meta::pure::metamodel::type"
def functionPackage : String := "meta::pure::metamodel::function"
def mappingPackage : String := "meta::pure::mapping"
def fetchPackage : String := "meta::pure::graphFetch"
def milestoningPackage : String := "meta::pure::milestoning"
def datePackage : String := "meta::pure::functions::date"
def relationshipPackage : String := "meta::pure::metamodel::relationship"
def extensionPackage : String := "meta::pure::metamodel::extension"
def metamodelPackage : String := "meta::pure::metamodel"
def runtimePackage : String := "meta::pure::runtime"
def storePackage : String := "meta::pure::store"

def any : TypeRef := classRef typePackage "Any"
def nil : TypeRef := classRef typePackage "Nil"

def number : TypeRef := primitiveRef "Number"
def integer : TypeRef := primitiveRef "Integer"
def float : TypeRef := primitiveRef "Float"
def decimal : TypeRef := primitiveRef "Decimal"
def date : TypeRef := primitiveRef "Date"
def strictDate : TypeRef := primitiveRef "StrictDate"
def dateTime : TypeRef := primitiveRef "DateTime"
def latestDate : TypeRef := primitiveRef "LatestDate"
def string : TypeRef := primitiveRef "String"
def boolean : TypeRef := primitiveRef "Boolean"

def primitives : List (TypeRef × TypeRef) :=
  [(number, any), (integer, number), (float, number), (decimal, number), (date, any),
   (strictDate, date), (dateTime, date), (latestDate, date), (string, any), (boolean, any),
   (primitiveRef "StrictTime", any), (primitiveRef "Binary", any), (primitiveRef "Byte", any)]

def typeClass : TypeRef := classRef typePackage "Type"
def classClass : TypeRef := classRef typePackage "Class"
def enumerationClass : TypeRef := classRef typePackage "Enumeration"
def primitiveClass : TypeRef := classRef typePackage "PrimitiveType"
def measureClass : TypeRef := classRef typePackage "Measure"
def unitClass : TypeRef := classRef typePackage "Unit"
def associationClass : TypeRef := classRef relationshipPackage "Association"
def profileClass : TypeRef := classRef extensionPackage "Profile"
def packageClass : TypeRef := classRef metamodelPackage "Package"
def functionClass : TypeRef := classRef functionPackage "Function"
def lambdaClass : TypeRef := classRef functionPackage "LambdaFunction"
def concreteFunctionClass : TypeRef := classRef functionPackage "ConcreteFunctionDefinition"
def nativeFunctionClass : TypeRef := classRef functionPackage "NativeFunction"
def mappingClass : TypeRef := classRef mappingPackage "Mapping"
def setClass : TypeRef := classRef mappingPackage "SetImplementation"
def operationSetClass : TypeRef := classRef mappingPackage "OperationSetImplementation"
def runtimeClass : TypeRef := classRef runtimePackage "PackageableRuntime"
def connectionClass : TypeRef := classRef runtimePackage "PackageableConnection"
def storeClass : TypeRef := classRef storePackage "Store"
def fetchTreeClass : TypeRef := classRef fetchPackage "GraphFetchTree"
def rootTreeClass : TypeRef := classRef fetchPackage "RootGraphFetchTree"
def propertyTreeClass : TypeRef := classRef fetchPackage "PropertyGraphFetchTree"
def milestoningClass : TypeRef := classRef milestoningPackage "DateMilestoning"
def businessRange : TypeRef := classRef milestoningPackage "BusinessDateMilestoning"
def processingRange : TypeRef := classRef milestoningPackage "ProcessingDateMilestoning"
def bothRange : TypeRef := classRef milestoningPackage "BiTemporalMilestoning"

def rangeClass : Temporal → Option TypeRef
  | .none => none
  | .business => some businessRange
  | .processing => some processingRange
  | .both => some bothRange

def durationUnit : TypeRef :=
  { kind := .enumeration, path := datePackage ++ "::DurationUnit", name := "DurationUnit" }

def durationUnitNames : List String :=
  ["YEARS", "MONTHS", "WEEKS", "DAYS", "HOURS", "MINUTES", "SECONDS", "MILLISECONDS",
   "MICROSECONDS", "NANOSECONDS"]

def classElement (ref : TypeRef) (supers : List TypeRef) (dates : List String := []) : Element :=
  { name := ref.name
    path := ref.path
    content := .classType
      { supers := supers.map fun s => (s, {})
        properties := dates.map fun name =>
          { name, owner := ref.path, type := .ofRef date, multiplicity := .one } } }

def primitiveElement (p : TypeRef × TypeRef) : Element :=
  { name := p.1.name, path := p.1.path, content := .primitive [(p.2, {})] }

def durationUnitElement : Element :=
  { name := durationUnit.name
    path := durationUnit.path
    content := .enumeration [(any, {})] (durationUnitNames.map fun name => { name }) }

def classGroups : List (String × List Element) :=
  [(typePackage,
     [classElement any [], classElement nil [], classElement typeClass [any],
      classElement classClass [typeClass], classElement enumerationClass [typeClass],
      classElement primitiveClass [typeClass], classElement measureClass [typeClass],
      classElement unitClass [typeClass]]),
   (relationshipPackage, [classElement associationClass [any]]),
   (extensionPackage, [classElement profileClass [any]]),
   (metamodelPackage, [classElement packageClass [any]]),
   (functionPackage,
     [classElement functionClass [any], classElement lambdaClass [functionClass],
      classElement concreteFunctionClass [functionClass],
      classElement nativeFunctionClass [functionClass]]),
   (mappingPackage,
     [classElement mappingClass [any], classElement setClass [any],
      classElement operationSetClass [setClass]]),
   (runtimePackage, [classElement runtimeClass [any], classElement connectionClass [any]]),
   (storePackage, [classElement storeClass [any]]),
   (fetchPackage,
     [classElement fetchTreeClass [any], classElement rootTreeClass [fetchTreeClass],
      classElement propertyTreeClass [fetchTreeClass]]),
   (milestoningPackage,
     [classElement milestoningClass [any],
      classElement businessRange [milestoningClass] ["from", "thru"],
      classElement processingRange [milestoningClass] ["in", "out"],
      classElement bothRange [milestoningClass] ["from", "thru", "in", "out"]]),
   (datePackage, [durationUnitElement])]

end Library
end ModelGraph
