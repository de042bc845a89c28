/-
# Problems of a model

Everything that can be wrong with a model, one constructor for each cause, and
the words for it in one place. Types and multiplicities stand in a problem as
they are printed.
-/
import ModelGraph.Json.Decode
import ModelGraph.Text.Quote

namespace ModelGraph

/-- The kinds of things that are looked up by path. -/
inductive Category where
  | type | classType | enumeration | measure | unit | association | profile | function
  | store | mapping | connection | runtime
  deriving Repr, BEq, DecidableEq, Inhabited

def Category.noun : Category → String
  | type => "type"
  | classType => "class"
  | enumeration => "enumeration"
  | measure => "measure"
  | unit => "unit"
  | association => "association"
  | profile => "profile"
  | function => "function"
  | store => "store"
  | mapping => "mapping"
  | connection => "connection"
  | runtime => "runtime"

inductive Problem where
  | text (message : String)
  -- packages and elements
  | reservedPackage (name : String)
  | notAPackage (name place : String)
  | packageRequired
  | duplicateElement (path : String)
  | inElement (path message : String)
  | invalidStage (before after : String)
  -- look-ups
  | unknown (category : Category) (path : String)
  | unknownElement (path : String)
  | ambiguous (path : String) (found : List String)
  | unknownStereotype (value profile : String)
  | unknownTag (value profile : String)
  | unknownEnumValue (value enumeration : String)
  | unknownPropertyOf (name className : String)
  -- classes and associations
  | duplicateSuperType (path className : String)
  | superTypeNotClass (name path : String)
  | emptyQualifiedBody (name : String)
  | milestonedMember (name className message : String)
  | associationEnds (path : String)
  | associationToAny (path : String)
  | superTypeCycle (names : List String)
  -- functions and constraints
  | emptyFunctionBody (path : String)
  | constraintNotBoolean
  | testNeedsResult
  | testIdsNotUnique
  | testParameterCount
  | testParameterName
  | testParameterJson (name : String)
  | testParameterType (name : String)
  | testWithoutAssertion
  | testExpected (id : String) (fault : Decode.Fault)
  | testAssertType
  | testAssertJson
  -- expressions
  | nestedTreeOnly
  | invalidLiteral (tag text : String)
  | unknownVariable (name : String)
  | untypedParameter (name : String)
  | emptyLambda
  | collectionItem (multiplicity : String)
  | invalidEnumNode (enumeration : String)
  | subTreeExpected
  | noSubTrees (property type : String)
  | noMatch (call : String)
  | unknownProperty (name : String) (owners : String)
  | noReceiver (property : String)
  | untypedReceiver (property : String)
  | noBuilder (name : String)
  | ambiguousBuilder (name : String) (found : List String)
  | functionMismatch (wanted found : String)
  | datesRequired (name dates : String)
  | typeMismatch (stub actual expected : String)
  | multiplicityMismatch (stub expected actual : String)
  -- mappings
  | duplicateInclude (included mapping : String)
  | includeCycle (names : List String)
  | filterNotBoolean (id : String)
  | unknownEnumMapping (id mapping : String)
  | unknownOperation (operation id : String)
  | noMainSet (id : String)
  | unknownSet (id mapping : String)
  | unknownAssociationProperty (name association : String)
  | noCrossExpression (property : String)
  | crossNotBoolean
  | inputFormat
  | mixedSources
  | sourceUnreadable (reason : String)
  | integerSource (fault : Decode.Fault)
  | stringSource (fault : Decode.Fault)
  | enumSource (fault : Decode.Fault)
  | notAnInteger (text : String)
  | sourceNotEnum (sourceType : String)
  | mixedSourceTypes
  | duplicateSetId (id mapping : String)
  | duplicateEnumMappingId (id mapping : String)
  | rootCount (className : String) (sets roots : Nat)
  | newInTransform (place : String)
  -- connections and runtimes
  | connectionNotBuilt (path : String)
  | modelStoreExpected (store found : String)
  | runtimeWithoutMapping
  | duplicateConnectionId (id : String)
  | connectionStore (connection actual listed : String)
  | storesNotCovered (stores mappings : List String)
  -- relational stores
  | databaseUnreadable (path : String) (fault : Decode.Fault)
  | includedNotDatabase (store database : String)
  | duplicateSchema (schema database : String)
  | duplicateTable (table schema : String)
  | duplicateColumn (column table : String)
  | primaryKeyColumn (column table : String)
  | databaseCycle (names : List String)
  | storeNotDatabase (store : String)
  | unknownTable (table schema database : String)
  | relationalSetUnreadable (fault : Decode.Fault)
  | noMainTable (className : String)
  | relationalPropertyUnreadable (fault : Decode.Fault)
  | unknownColumn (column table : String)
  | columnOutsideTable (column property table id : String)
  | columnType (column columnType property propertyType : String)
  | relationalConnectionUnreadable (fault : Decode.Fault)
  | databaseExpected (store : String)
  | unknownDatabaseType (type : String)
  | noDatasource (database : String)
  deriving Repr, BEq, DecidableEq

namespace Problem

def arrows (names : List String) : String := " -> ".intercalate names

def commas (names : List String) : String := ", ".intercalate names

def message : Problem → String
  | text m => m
  | reservedPackage name => s!"Can't create package with reserved name '{name}'"
  | notAPackage name place => s!"Element {name} in {place} is not a package"
  | packageRequired => "Element package is required"
  | duplicateElement path => s!"Duplicated element '{path}'"
  | inElement path m => s!"Error in '{path}': {m}"
  | invalidStage before after => s!"invalid stage transition from {before} to {after}"
  | unknown category path => "Can't find " ++ category.noun ++ s!" '{path}'"
  | unknownElement path => s!"Can't find the packageable element '{path}'"
  | ambiguous path found =>
    s!"Can't resolve element with path '{path}' - multiple matches found [" ++ commas found ++ "]"
  | unknownStereotype value profile => s!"Can't find stereotype '{value}' in profile '{profile}'"
  | unknownTag value profile => s!"Can't find tag '{value}' in profile '{profile}'"
  | unknownEnumValue value enumeration =>
    s!"Can't find enum value '{value}' in enumeration '{enumeration}'"
  | unknownPropertyOf name className => s!"Can't find property '{name}' in class '{className}'"
  | duplicateSuperType path className => s!"Duplicated super type '{path}' in class '{className}'"
  | superTypeNotClass name path =>
    s!"Invalid supertype: '{name}' cannot extend '{path}' as it is not a class."
  | emptyQualifiedBody name => s!"Qualified property '{name}' has an empty body"
  | milestonedMember name className m =>
    s!"Can't generate milestoned property '{name}' of class '{className}': {m}"
  | associationEnds path => s!"Expected 2 properties for an association '{path}'"
  | associationToAny path => s!"Associations to Any are not allowed. Found in '{path}'"
  | superTypeCycle names => "Cycle detected in class supertype hierarchy: " ++ arrows names
  | emptyFunctionBody path => s!"Function '{path}' has an empty body"
  | constraintNotBoolean => "Constraint must be of type 'Boolean'"
  | testNeedsResult => "Return multiplicity should not be Nil for a function with function test"
  | testIdsNotUnique => "Function Test Ids should be unique"
  | testParameterCount =>
    "Number of parameters passed in the function test do not match the number of input " ++
      "parameters defined in the function."
  | testParameterName =>
    "Function test parameter name does not match the input parameter name defined in the function"
  | testParameterJson name => s!"Invalid JSON format for parameter: '{name}'"
  | testParameterType name =>
    s!"Parameter value type does not match with parameter type for parameter: '{name}'"
  | testWithoutAssertion =>
    "Function Test should have 1 assertion. No test assertion provided."
  | testExpected id fault => s!"Invalid expected value for assert '{id}': " ++ fault.message
  | testAssertType =>
    "Function Test assert value type does not match with return type for function"
  | testAssertJson => "Invalid JSON format for assert "
  | nestedTreeOnly => "Property graph fetch tree must be nested in a root graph fetch tree"
  | invalidLiteral tag written => s!"Invalid {tag} literal {written}"
  | unknownVariable name => s!"Can't find variable class for variable '{name}' in the graph"
  | untypedParameter name => s!"Can't infer the type of lambda parameter '{name}'"
  | emptyLambda => "Lambda body can't be empty"
  | collectionItem multiplicity =>
    s!"Collection element must have a multiplicity [1] - multiplicity:{multiplicity}"
  | invalidEnumNode enumeration => s!"Invalid enum value for enumeration '{enumeration}'"
  | subTreeExpected => "Graph fetch sub tree must be a property graph fetch tree"
  | noSubTrees property type =>
    s!"Can't fetch sub trees of property '{property}' of non-class type '{type}'"
  | noMatch call => s!"Can't find a match for function '{call}'"
  | unknownProperty name owners => s!"Can't find property '{name}' in [" ++ owners ++ "]"
  | noReceiver property => s!"Property '{property}' is applied without a receiver"
  | untypedReceiver property => s!"Can't find property '{property}' of an untyped receiver"
  | noBuilder name => s!"Can't resolve the builder for function '{name}'"
  | ambiguousBuilder name found =>
    s!"Can't resolve the builder for function '{name}' - multiple matches found [" ++
      commas found ++ "]"
  | functionMismatch wanted found =>
    s!"Pure graph function: '{wanted}' doesn't match the found function: '{found}'"
  | datesRequired name dates =>
    s!"No-Arg milestoned property: '{name}' must be either called in a milestoning context or " ++
      s!"supplied with {dates} parameters"
  | typeMismatch stub actual expected =>
    s!"{stub} - Type error: '{actual}' is not a subtype of '{expected}'"
  | multiplicityMismatch stub expected actual =>
    s!"{stub} - Multiplicity error: {expected} doesn't subsumes {actual}"
  | duplicateInclude included mapping =>
    s!"Duplicated mapping include '{included}' in mapping '{mapping}'"
  | includeCycle names => "Cycle detected in mapping include hierarchy: " ++ arrows names
  | filterNotBoolean id => s!"Filter of class mapping '{id}' must be of type 'Boolean'"
  | unknownEnumMapping id mapping =>
    s!"Can't find enumeration mapping '{id}' in mapping '{mapping}'"
  | unknownOperation operation id => s!"Unknown operation '{operation}' in class mapping '{id}'"
  | noMainSet id => s!"Aggregation aware class mapping '{id}' has no main set implementation"
  | unknownSet id mapping => s!"Can't find class mapping '{id}' in mapping '{mapping}'"
  | unknownAssociationProperty name association =>
    s!"Can't find property '{name}' in association '{association}'"
  | noCrossExpression property =>
    s!"XStore property mapping for '{property}' has no cross expression"
  | crossNotBoolean => "XStore property mapping function should return 'Boolean[1]'"
  | inputFormat => "Object input data does not have a format type"
  | mixedSources => "Mixed formats for enum value mapping source values"
  | sourceUnreadable reason => "Can't read enumeration mapping source value: " ++ reason
  | integerSource fault => "Integer source value must be an integer: " ++ fault.message
  | stringSource fault => "String source value must be a string: " ++ fault.message
  | enumSource fault => "Enum source value must name an enum value: " ++ fault.message
  | notAnInteger written => s!"Source value '{written}' is not an integer"
  | sourceNotEnum sourceType => s!"Source value of type '{sourceType}' must name an enum value"
  | mixedSourceTypes =>
    "Only one type of source value (integer, string or an enum) is allowed for enumeration mapping"
  | duplicateSetId id mapping =>
    s!"Duplicated class mappings found with ID '{id}' in mapping '{mapping}'"
  | duplicateEnumMappingId id mapping =>
    s!"Duplicated enumeration mappings found with ID '{id}' in mapping '{mapping}'"
  | rootCount className sets roots =>
    s!"Class '{className}' is mapped by {sets} set implementations and has {roots} roots. " ++
      "There should be exactly one root set implementation for the class, and it should be " ++
      "marked with a '*'"
  | newInTransform place =>
    "The new function/operator(^) on target class is unsupported in property mappings, " ++
      s!"violated in {place}"
  | connectionNotBuilt path => s!"Connection '{path}' is not built yet"
  | modelStoreExpected store found =>
    s!"Model connection must target store '{store}', found '{found}'"
  | runtimeWithoutMapping => "Runtime must cover at least one mapping"
  | duplicateConnectionId id => s!"Duplicated connection ID '{id}' in runtime"
  | connectionStore connection actual listed =>
    s!"Connection '{connection}' is built for store '{actual}' but is listed under store '{listed}'"
  | storesNotCovered stores mappings =>
    "Runtime does not cover store(s) '" ++ "', '".intercalate stores ++ "' in mapping(s) '" ++
      "', '".intercalate mappings ++ "'"
  | databaseUnreadable path fault => s!"Can't read database '{path}': " ++ fault.message
  | includedNotDatabase store database =>
    s!"Store '{store}' included by database '{database}' is not a database"
  | duplicateSchema schema database => s!"Duplicated schema '{schema}' in database '{database}'"
  | duplicateTable table schema => s!"Duplicated table '{table}' in schema '{schema}'"
  | duplicateColumn column table => s!"Duplicated column '{column}' in table '{table}'"
  | primaryKeyColumn column table => s!"Primary key column '{column}' is not in table '{table}'"
  | databaseCycle names => "Cycle detected in database include hierarchy: " ++ arrows names
  | storeNotDatabase store => s!"Store '{store}' is not a database"
  | unknownTable table schema database =>
    s!"Can't find table '{table}' in schema '{schema}' and database '{database}'"
  | relationalSetUnreadable fault => "Can't read relational class mapping: " ++ fault.message
  | noMainTable className =>
    s!"Relational class mapping for class '{className}' has no main table"
  | relationalPropertyUnreadable fault =>
    "Can't read relational property mapping: " ++ fault.message
  | unknownColumn column table => s!"Can't find column '{column}' in table '{table}'"
  | columnOutsideTable column property table id =>
    s!"Column '{column}' of property '{property}' must belong to main table '{table}' of class " ++
      s!"mapping '{id}'"
  | columnType column found property expected =>
    s!"Column '{column}' of type '{found}' can't be mapped to property '{property}' of type " ++
      s!"'{expected}'"
  | relationalConnectionUnreadable fault => "Can't read relational connection: " ++ fault.message
  | databaseExpected store => s!"Relational connection must target a database, found '{store}'"
  | unknownDatabaseType type => s!"Unknown database type '{type}'"
  | noDatasource database =>
    s!"Relational connection to '{database}' has no datasource specification"

end Problem

/-- What a model may ask for that nothing here handles. -/
inductive Unsupported where
  | text (what : String)
  | classInstance (type : String)
  | nodeTag (tag : String)
  | elementTag (tag : String)
  | classMapping (tag : String)
  | connection (tag : String)
  | purePropertyMapping (tag : String)
  | associationMapping (tag : String)
  | crossPropertyMapping (tag : String)
  | enumSourceType (type : String)
  | testParameter (tag : String)
  | testAssertion (tag : String)
  | relationalPropertyMapping (tag : String)
  | relationalOperation (tag : String)
  deriving Repr, BEq, DecidableEq

def Unsupported.message : Unsupported → String
  | text what => what
  | classInstance type => s!"no compiler extension handles class instance type '{type}'"
  | nodeTag tag => s!"no compiler extension handles value specification type '{tag}'"
  | elementTag tag => s!"no compiler extension handles element type '{tag}'"
  | classMapping tag => s!"no compiler extension handles class mapping type '{tag}'"
  | connection tag => s!"no compiler extension handles connection type '{tag}'"
  | purePropertyMapping tag =>
    s!"property mapping type '{tag}' in a Pure instance class mapping"
  | associationMapping tag => s!"association mapping type '{tag}'"
  | crossPropertyMapping tag =>
    s!"property mapping type '{tag}' in an XStore association mapping"
  | enumSourceType type => s!"Type '{type}' is not supported in enumeration mapping"
  | testParameter tag => "function test parameter " ++ quoted tag
  | testAssertion tag => "function test assertion " ++ quoted tag
  | relationalPropertyMapping tag =>
    s!"property mapping type '{tag}' in relational class mapping"
  | relationalOperation tag => s!"relational operation '{tag}'"

end ModelGraph
