/-
# The schema of model documents

The rules that a document obeys before it is decoded, one definition for each part of a
document. An element without a tag is held to the rules of every tag.
-/
import ModelGraph.Json.Reader
import ModelGraph.Schema.Basic

namespace ModelGraph
namespace Schema

def object (names : List String) (rules : List (String × Schema)) (more : List Schema := []) :
    Schema :=
  .all ([.kind [.object], .required names, .members rules] ++ more)

def record (names : List String) (rules : List (String × Schema)) : Schema :=
  object names rules [.only (rules.map (·.1))]

def text : Schema := .kind [.string]

def word : Schema := .all [.kind [.string], .minLength 1]

def boolean : Schema := .kind [.boolean]

def listOf (rule : Schema) : Schema := .all [.kind [.array], .items rule]

def tagged (tags : List String) (rule : Schema) : Schema :=
  .when (.members [("_type", .oneOfTexts tags)]) rule

def span : Schema := .ref "sourceInformation"

def path : Schema := .ref "path"

def value : Schema := .ref "valueSpecification"

def lambda : Schema := .ref "lambda"

def multiplicity : Schema := .ref "multiplicity"

def pointer : Schema := .ref "elementPointer"

def commonDefinitions : Definitions :=
  [("sourceInformation", record []
    [("sourceId", text), ("startLine", .kind [.integer]), ("startColumn", .kind [.integer]),
     ("endLine", .kind [.integer]), ("endColumn", .kind [.integer])]),
   ("multiplicity", record ["lowerBound"]
    [("lowerBound", .all [.kind [.integer], .minimum 0]),
     ("upperBound", .all [.kind [.null, .integer], .minimum 0])]),
   ("path", word),
   ("elementPointer", .any
    [path, record ["path"] [("type", text), ("path", path), ("sourceInformation", span)]]),
   ("genericType", object ["rawType"]
    [("rawType", object ["fullPath"]
      [("_type", text), ("fullPath", path), ("sourceInformation", span)]),
     ("typeArguments", listOf (.ref "genericType")),
     ("multiplicityArguments", .kind [.array]),
     ("sourceInformation", span)]),
   ("stereotypePtr", object ["profile", "value"]
    [("profile", path), ("value", word), ("profileSourceInformation", span),
     ("sourceInformation", span)]),
   ("taggedValue", object ["tag", "value"]
    [("tag", .ref "stereotypePtr"), ("value", text), ("sourceInformation", span)]),
   ("annotations", object []
    [("stereotypes", listOf (.ref "stereotypePtr")),
     ("taggedValues", listOf (.ref "taggedValue"))]),
   ("sectionIndex", object ["sections"]
    [("sections", listOf (object ["_type"]
      [("_type", .oneOfTexts ["importAware", "default"]), ("parserName", text),
       ("elements", listOf path), ("imports", listOf path), ("sourceInformation", span)]))])]

def expressionDefinitions : Definitions :=
  [("valueSpecification", object ["_type"]
    [("_type", word), ("sourceInformation", span), ("multiplicity", multiplicity),
     ("parameters", listOf value), ("body", listOf value)]
    [tagged ["var"] (.required ["name"]),
     tagged ["func"] (.required ["function", "parameters"]),
     tagged ["property"] (.required ["property", "parameters"]),
     tagged ["lambda"] (.required ["body"]),
     tagged ["packageableElementPtr"] (.required ["fullPath"]),
     tagged ["collection"] (.members [("values", listOf value)])]),
   ("lambda", .all [value, .members [("_type", .oneOfTexts ["lambda"])]])]

def domainDefinitions : Definitions :=
  let annotations := Schema.ref "annotations"
  let property := Schema.ref "property"
  let qualified := Schema.ref "qualifiedProperty"
  [("property", object ["name", "multiplicity"]
    [("name", word), ("type", path), ("genericType", .ref "genericType"),
     ("multiplicity", multiplicity),
     ("aggregation", .oneOfTexts ["None", "Shared", "Composite"]),
     ("defaultValue", .kind [.object]), ("propertyTypeSourceInformation", span),
     ("sourceInformation", span)]
    [annotations, .any [.required ["type"], .required ["genericType"]]]),
   ("qualifiedProperty", object ["name", "returnMultiplicity"]
    [("name", word), ("parameters", listOf value), ("returnType", path),
     ("returnGenericType", .ref "genericType"), ("returnMultiplicity", multiplicity),
     ("body", listOf value)]
    [annotations]),
   ("constraint", object ["name", "functionDefinition"]
    [("name", text), ("functionDefinition", lambda), ("messageFunction", lambda),
     ("externalId", text), ("enforcementLevel", .oneOfTexts ["Error", "Warn"])]),
   ("profile", object ["name"]
    [("stereotypes", listOf (.ref "profileValue")), ("tags", listOf (.ref "profileValue"))]),
   ("profileValue", .any [word, record ["value"] [("value", word), ("sourceInformation", span)]]),
   ("class", object ["name"]
    [("superTypes", listOf pointer), ("properties", listOf property),
     ("qualifiedProperties", listOf qualified), ("constraints", listOf (.ref "constraint")),
     ("originalMilestonedProperties", listOf property)]
    [annotations]),
   ("enumeration", object ["name", "values"]
    [("values", listOf (object ["value"] [("value", word)] [annotations]))]
    [annotations]),
   ("association", object ["name", "properties"]
    [("properties", listOf property), ("qualifiedProperties", listOf qualified)]
    [annotations]),
   ("function", object ["name", "returnMultiplicity", "body"]
    [("parameters", listOf value), ("returnType", path),
     ("returnGenericType", .ref "genericType"), ("returnMultiplicity", multiplicity),
     ("body", .all [.kind [.array], .minItems 1, .items value]),
     ("tests", listOf (object ["id"] [("id", word)]))]
    [annotations]),
   ("unit", object ["name"]
    [("name", word), ("package", text), ("measure", text), ("conversionFunction", lambda)]),
   ("measure", object ["name"]
    [("canonicalUnit", .ref "unit"), ("nonCanonicalUnits", listOf (.ref "unit"))])]

def mappingDefinitions : Definitions :=
  [("mapping", object ["name"]
    [("includedMappings", listOf (.ref "include")),
     ("classMappings", listOf (.ref "classMapping")),
     ("enumerationMappings", listOf (.ref "enumerationMapping")),
     ("associationMappings", listOf (.ref "associationMapping")),
     ("tests", listOf (.ref "mappingTest"))]),
   ("include", object []
    [("includedMapping", path), ("includedMappingPackage", text), ("includedMappingName", text),
     ("sourceDatabasePath", text), ("targetDatabasePath", text)]
    [.any [.required ["includedMapping"], .required ["includedMappingName"]]]),
   ("classMapping", object ["_type", "class"]
    [("_type", word), ("id", text), ("class", path), ("root", boolean), ("srcClass", text),
     ("filter", lambda), ("propertyMappings", listOf (.ref "propertyMapping")),
     ("operation", .oneOfTexts ["STORE_UNION", "ROUTER_UNION", "INHERITANCE", "MERGE"]),
     ("parameters", listOf text), ("mainSetImplementation", .ref "classMapping"),
     ("aggregateSetImplementations", listOf
      (object ["aggregateSpecification", "setImplementation"]
        [("setImplementation", .ref "classMapping")]))]
    [tagged ["operation", "mergeOperation"] (.required ["operation"]),
     tagged ["aggregationAware"] (.required ["mainSetImplementation"])]),
   ("propertyMapping", object ["_type", "property"]
    [("_type", word),
     ("property", object ["property"] [("class", text), ("property", word)]),
     ("source", text), ("target", text), ("transform", lambda), ("crossExpression", lambda),
     ("explodeProperty", boolean), ("enumMappingId", text),
     ("localMappingProperty", object ["type", "multiplicity"]
      [("type", path), ("multiplicity", multiplicity)])]),
   ("enumerationMapping", object ["enumeration", "enumValueMappings"]
    [("id", text), ("enumeration", pointer), ("sourceType", text),
     ("enumValueMappings", listOf (object ["enumValue", "sourceValues"]
      [("enumValue", word), ("sourceValues", .kind [.array])]))]),
   ("associationMapping", object ["_type", "association"]
    [("_type", word), ("association", pointer),
     ("propertyMappings", listOf (.ref "propertyMapping"))]),
   ("mappingTest", object ["name", "query"]
    [("name", text), ("query", lambda), ("inputData", listOf (object ["_type"] []))])]

def runtimeDefinitions : Definitions :=
  [("connection", object ["_type"]
    [("_type", word), ("element", text), ("class", text), ("url", text),
     ("mappings", listOf path), ("connection", text)]
    [tagged ["connectionPointer"] (.required ["connection"]),
     tagged ["JsonModelConnection", "XmlModelConnection"] (.required ["class", "url"]),
     tagged ["ModelChainConnection"] (.required ["mappings"])]),
   ("packageableConnection", object ["name", "connectionValue"]
    [("connectionValue", .ref "connection")]),
   ("packageableRuntime", object ["name", "runtimeValue"]
    [("runtimeValue", object ["mappings"]
      [("mappings", listOf pointer),
       ("connections", listOf (object ["store", "storeConnections"]
        [("store", pointer),
         ("storeConnections", listOf (object ["id", "connection"]
          [("id", word), ("connection", .ref "connection")]))]))])])]

def elementTags : List (String × String) :=
  [("sectionIndex", "sectionIndex"), ("profile", "profile"), ("class", "class"),
   ("Enumeration", "enumeration"), ("association", "association"), ("function", "function"),
   ("measure", "measure"), ("mapping", "mapping"), ("connection", "packageableConnection"),
   ("runtime", "packageableRuntime")]

def elementDefinition : Schema :=
  object ["_type"]
    [("_type", word), ("name", text), ("package", text), ("sourceInformation", span)]
    (elementTags.map fun (tag, name) => tagged [tag] (.ref name))

def definitions : Definitions :=
  ("element", elementDefinition) ::
    commonDefinitions ++ expressionDefinitions ++ domainDefinitions ++ mappingDefinitions ++
      runtimeDefinitions

def document : Schema :=
  record ["elements"]
    [("_type", .all [.kind [.string], .oneOfTexts ["data", "pointer"]]),
     ("serializer", .kind [.object]), ("origin", .kind [.object]),
     ("elements", listOf (.ref "element"))]

/-- What is wrong with a text that is not JSON, or has a number that no double is near. -/
def unreadable : SchemaError :=
  { message := "failed to parse JSON: invalid character in the text", unreadable := true }

def errors (source : String) : List SchemaError :=
  match Json.read source with
  | none => [unreadable]
  | some j =>
    if !j.inRange then [unreadable]
    else (Violation.group [] (check definitions document j)).leaves

def sorted (es : List SchemaError) : List SchemaError :=
  es.mergeSort fun a b => a.path < b.path || (a.path = b.path && a.message ≤ b.message)

end Schema
end ModelGraph
